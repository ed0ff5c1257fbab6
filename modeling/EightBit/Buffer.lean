import EightBit.Fault
set_option autoImplicit false

/-!
# The byte buffer of an instruction

A buffer has eight cells.  The cells in front hold the bytes fetched for the current instruction; the
others still hold what earlier instructions left there.  A new instruction starts by rewinding, which
makes every cell stale and clears none.
-/

namespace EightBit

/-- Eight cells, cut where the bytes of the current instruction end. -/
structure Buffer where
  /-- The bytes fetched for the current instruction. -/
  fetched : List UInt8
  /-- The bytes in the cells behind them. -/
  stale : List UInt8
  /-- There are eight cells. -/
  size_eq : fetched.length + stale.length = 8
  deriving DecidableEq, Repr

namespace Buffer

/-- Eight zero cells, none of them fetched. -/
def blank : Buffer where
  fetched := []
  stale := List.replicate 8 0
  size_eq := by simp

/-- All cells from the front. -/
def toList (b : Buffer) : List UInt8 :=
  b.fetched ++ b.stale

/-- The number of bytes fetched. -/
def count (b : Buffer) : Nat :=
  b.fetched.length

/-- Every cell holds a fetched byte. -/
def isFull (b : Buffer) : Bool :=
  8 ≤ b.count

/-- The same cells with none of them fetched. -/
def rewind (b : Buffer) : Buffer where
  fetched := []
  stale := b.toList
  size_eq := by simpa [toList] using b.size_eq

/-- Fetches a byte into the first stale cell; a full buffer has none. -/
def push? (b : Buffer) (byte : UInt8) : Option Buffer :=
  match h : b.stale with
  | [] => none
  | _ :: rest =>
      some
        { fetched := b.fetched ++ [byte]
          stale := rest
          size_eq := by have := b.size_eq; simp [h] at this ⊢; omega }

/-- The cells as integers. -/
def code (b : Buffer) : List Int :=
  b.toList.map fun byte => (byte.toNat : Int)

/-- The first cell. -/
def first (b : Buffer) : UInt8 :=
  b.toList.headD 0

@[simp] theorem length_toList (b : Buffer) : b.toList.length = 8 := by
  simpa [toList] using b.size_eq

@[simp] theorem toList_rewind (b : Buffer) : b.rewind.toList = b.toList := by
  simp [rewind, toList]

@[simp] theorem count_rewind (b : Buffer) : b.rewind.count = 0 := rfl

theorem count_le (b : Buffer) : b.count ≤ 8 := by
  have := b.size_eq; unfold count; omega

end Buffer

end EightBit
