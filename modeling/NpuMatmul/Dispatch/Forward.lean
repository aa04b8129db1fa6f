import NpuMatmul.Shared.NdArray
import NpuMatmul.Shared.Traced

set_option autoImplicit false

namespace NpuMatmul

structure TorchTensor (R : Type) extends NdArray R where
  isCuda : Bool
  isFloat32 : Bool

-- The globals of the module with what int(os.environ.get("K_LIMIT", "0")) gives, and whether
-- NPUBLAS_VERBOSE is 1.
structure Settings where
  kLimit : Int
  globalMSplit : Option Int
  globalKSplit : Option Int
  globalNSplit : Option Int
  defaultBackendChoice : Int
  verbose : Bool

structure PySplits where
  m : Int
  k : Int
  n : Int
deriving DecidableEq, Repr

namespace Settings

def tiled (settings : Settings) (m k n : Nat) : Bool :=
  (0 < settings.kLimit && settings.kLimit < k) || 1024 < m || 1024 < n

def defaultSplit (size : Nat) : Int := max 1 (Int.fdiv (size + 1023) 1024)

def defaultKSplit (settings : Settings) (k : Nat) : Int :=
  if 0 < settings.kLimit then max 1 (Int.fdiv (k + settings.kLimit - 1) settings.kLimit) else 1

def splits (settings : Settings) (m k n : Nat) : PySplits :=
  { m := settings.globalMSplit.getD (defaultSplit m)
    k := settings.globalKSplit.getD (settings.defaultKSplit k)
    n := settings.globalNSplit.getD (defaultSplit n) }

end Settings

def PySplits.hasZero (splits : PySplits) : Bool := splits.m = 0 || splits.k = 0 || splits.n = 0

inductive Kernel where
  | matmul
  | matmulTiled (splits : PySplits)
deriving DecidableEq, Repr

structure ExtensionCall (R : Type) where
  kernel : Kernel
  a : NdArray R
  b : NdArray R
  backendChoice : Int

abbrev Dispatch (R : Type) : Type → Type := Traced (ExtensionCall R)

-- The functions matmul_patch ends in: the kernels of the extension and torch._matmul_original,
-- with its out tensor. none is an exception.
structure Backends (R : Type) where
  kernel (call : ExtensionCall R) : Option (NdArray R)
  matmulOriginal (a b : TorchTensor R) (out : Option (NdArray R)) : Option (NdArray R)

section Forward

variable {R : Type}

-- The kernel that forward selects. The message of NPUBLAS_VERBOSE divides by the splits.
def Settings.select (settings : Settings) (m k n : Nat) : Option Kernel :=
  if settings.tiled m k n then
    let splits := settings.splits m k n
    if settings.verbose && splits.hasZero then none else some (.matmulTiled splits)
  else some .matmul

def forward (settings : Settings) (backends : Backends R) (backendChoice : Int) (a b : NdArray R) :
    Dispatch R (NdArray R) :=
  match a.shape, b.shape with
  | [m, k], [_, n] =>
      match settings.select m k n with
      | some kernel =>
          let call := { kernel := kernel, a := a, b := b, backendChoice := backendChoice }
          .called call (backends.kernel call)
      | none => .raised
  | _, _ => .raised

end Forward

end NpuMatmul
