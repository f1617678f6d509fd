import FlowDiagram.Flow.Basic
import FlowDiagram.Scalar

namespace FlowDiagram

/-- A setting as it was given: an integer of any size, or a coordinate. -/
inductive Quantity (α : Type) where
  | int (n : Int)
  | real (x : α)

namespace Quantity

variable {α : Type} [Scalar α]

def isBelow (n : Nat) : Quantity α → Bool
  | int i => i < n
  | real x => Scalar.lt x n

def isAtMost (n : Nat) : Quantity α → Bool
  | int i => i ≤ n
  | real x => Scalar.le x n

def value : Quantity α → Except Fault α
  | int i => Scalar.ofInt i
  | real x => .ok x

end Quantity

structure Config (α : Type) where
  minSpacing : Quantity α := .int 150
  levelSpacing : Quantity α := .int 120
  /-- Where nodes without a placed parent are centered. -/
  baseX : Quantity α := .int 100
  baseY : Quantity α := .int 60
  /-- The space kept clear on the left, and above the topmost element. -/
  leftMargin : Quantity α := .int 20
  /-- The space added right of and below the furthest elements. -/
  canvasMargin : Quantity α := .int 40

structure Spacing (α : Type) where
  minSpacing : α
  levelSpacing : α
  baseX : α
  baseY : α
  leftMargin : α

/-- Boxes in a row may touch and not overlap, rows leave room for a line between them, the first row
lies on the canvas, and the margin is no overhang. The settings are checked as they were given,
before they are turned into coordinates. -/
def Config.check {α : Type} [Scalar α] (c : Config α) : Except Fault (Spacing α) := do
  if c.minSpacing.isBelow Kind.widest then throw .minSpacing
  if c.levelSpacing.isAtMost Kind.tallest then throw .levelSpacing
  if c.baseY.isBelow (Kind.tallest / 2) then throw .baseY
  if c.leftMargin.isBelow 0 then throw .leftMargin
  return {
    minSpacing := ← c.minSpacing.value
    levelSpacing := ← c.levelSpacing.value
    baseX := ← c.baseX.value
    baseY := ← c.baseY.value
    leftMargin := ← c.leftMargin.value }

end FlowDiagram
