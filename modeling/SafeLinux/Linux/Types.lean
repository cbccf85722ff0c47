import Mathlib.Algebra.Order.Ring.Int
import Mathlib.Order.CompletePartialOrder

/-!
# Machine words, error numbers and pointers

What every driver of the repository shares: the fixed-width integers of the kernel, the error
numbers and pointers that may be `NULL` or an error.
-/

namespace SafeLinux

/-- `u64`, `unsigned long` and `size_t`. -/
abbrev U64 := BitVec 64

/-- `u32` and, read through `BitVec.toInt`, `int`. -/
abbrev U32 := BitVec 32

instance : LawfulBEq U32 := inferInstance

/-! ## Error numbers -/

def ENOENT : Int := 2
def EBADF : Int := 9
def ENOMEM : Int := 12
def EFAULT : Int := 14
def EBUSY : Int := 16
def ENODEV : Int := 19
def EINVAL : Int := 22
def ENOTTY : Int := 25
def ENOSPC : Int := 28

/-! ## Bits and fields of registers -/

/-- `BIT`. -/
def bit {w : Nat} (n : Nat) : BitVec w := 1 <<< n

/-- `GENMASK`. -/
def genmask {w : Nat} (high low : Nat) : BitVec w :=
  BitVec.ofNat w (2 ^ (high + 1) - 2 ^ low)

/-- `FIELD_PREP` of the field `GENMASK(high, low)`. -/
def fieldPrep {w : Nat} (high low : Nat) (value : BitVec w) : BitVec w :=
  (value <<< low) &&& genmask high low

/-! ## Pointers returned by kernel calls -/

/-- A pointer that may be `NULL` or an error pointer. -/
inductive KPtr (α : Type) where
  | null
  | err (errno : Int)
  | ptr (value : α)
  deriving DecidableEq, Inhabited

namespace KPtr

variable {α : Type}

/-- `IS_ERR_OR_NULL`. -/
def isErrOrNull : KPtr α → Bool
  | .ptr _ => false
  | _ => true

/-- The value `p == NULL ? errno : PTR_ERR(p)` of the drivers' error exits. -/
def errOr (errno : Int) : KPtr α → Int
  | .err e => e
  | _ => errno

end KPtr

end SafeLinux
