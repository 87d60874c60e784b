import EvmSourceMap.Decimal

/-!
The version of the program.
-/

namespace EvmSourceMap

/-- A release number, and the suffix of a release that is not stable. -/
structure Version where
  major : Nat
  minor : Nat
  patch : Nat
  suffix : Option Bytes := none
  deriving DecidableEq, Repr

namespace Version

/-- The three numbers with points between them, and the suffix after a dash. -/
def text (v : Version) : Bytes :=
  Decimal.ofNat v.major ++ "." ++ Decimal.ofNat v.minor ++ "." ++ Decimal.ofNat v.patch ++
    (match v.suffix with
    | some suffix => "-" ++ suffix
    | none => [])

def isStable (v : Version) : Bool :=
  v.suffix.isNone

def current : Version := ⟨1, 2, 0, none⟩

end Version

end EvmSourceMap
