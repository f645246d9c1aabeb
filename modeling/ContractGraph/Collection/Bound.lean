import ContractGraph.Json.Display

/-!
# Bounds

A bound on a count is a number of any kind: a whole number, a truth value that counts as one or
zero, or a binary64 number. It keeps its kind, because it is shown as it was given. What is not a
number is no point of the line, so it is neither below nor above any count and bounds nothing, like
an infinity.
-/

namespace ContractGraph

set_option autoImplicit false

inductive Bound where
  | whole (n : Int)
  | truth (b : Bool)
  | binary (x : Binary64)
  deriving DecidableEq

namespace Bound

def toValue : Bound → Json
  | .whole n => .int n
  | .truth b => .bool b
  | .binary x => .float x

def ofValue? : Json → Option Bound
  | .int n => some (.whole n)
  | .bool b => some (.truth b)
  | .float x => some (.binary x)
  | _ => none

@[simp] theorem of_value_to_value (b : Bound) : ofValue? b.toValue = some b := by cases b <;> rfl

/-- How the bound is shown in a message. -/
def text (b : Bound) : String := b.toValue.text

def point? : Bound → Option LinePoint
  | .whole n => some (.ofInt n)
  | .truth b => some (.ofInt (if b then 1 else 0))
  | .binary x => LinePoint.ofBinary64? x

/-- Whether the bound is less than a whole number. -/
def isBelow (b : Bound) (n : Int) : Bool := b.point?.any fun p => p.order (.ofInt n) == .lt

/-- The greatest whole number within the bound, none when all are. -/
def floor? (b : Bound) : Option Int := b.point?.bind LinePoint.floor?

/-- The least whole number that reaches the bound, none when none does. -/
def ceiling? (b : Bound) : Option Int := b.point?.bind LinePoint.ceiling?

/-- Whether the bound lies between two neighbouring whole numbers. -/
def isFractional (b : Bound) : Bool := b.floor? != b.ceiling?

theorem whole_is_below (n m : Int) : (whole n).isBelow m = decide (n < m) := by
  simp only [isBelow, point?, LinePoint.ofInt, LinePoint.order, Option.any_some]
  simp [twoTo, Int.compare_eq_lt, Bool.beq_eq_decide_eq]

@[simp] theorem floor_whole (n : Int) : (whole n).floor? = some n := by simp [floor?, point?]

@[simp] theorem ceiling_whole (n : Int) : (whole n).ceiling? = some n := by
  simp [ceiling?, point?]

@[simp] theorem is_fractional_whole (n : Int) : (whole n).isFractional = false := by
  simp [isFractional]

end Bound

end ContractGraph
