import Blockwise.Block.Basic

/-!
# Nesting of a sequence

How the blocks of a sequence lie in each other, whether or not the sequence
nests properly. An opener is matched with the closer behind it before which as
many bodies end as begin (`matchingCloser`). The indentation of a block counts
the bodies around it; a closer is drawn like its opener, and a closer that ends
nothing leaves the indentation at zero.
-/

namespace Blockwise

/-- Splits a sequence behind the closer that ends the innermost of `depth + 1`
bodies already begun. -/
def splitScope? (depth : Nat) : List Block → Option (List Block × List Block)
  | [] => none
  | block :: rest =>
    match block.tag.role, depth with
    | .closer, 0 => some ([block], rest)
    | .closer, depth + 1 => (splitScope? depth rest).map fun s => (block :: s.1, s.2)
    | .opener, depth => (splitScope? (depth + 1) rest).map fun s => (block :: s.1, s.2)
    | .ordinary, depth | .condition, depth =>
      (splitScope? depth rest).map fun s => (block :: s.1, s.2)

theorem append_of_splitScope? {depth : Nat} {blocks scope rest : List Block}
    (h : splitScope? depth blocks = some (scope, rest)) : scope ++ rest = blocks := by
  fun_induction splitScope? depth blocks generalizing scope rest <;>
    simp_all only [Option.map_eq_some_iff, reduceCtorEq, Option.some.injEq, Prod.mk.injEq,
      Prod.exists]
  case case2 => obtain ⟨rfl, rfl⟩ := h; rfl
  all_goals
    obtain ⟨s, t, hs, rfl, rfl⟩ := h
    simp_all

/-- The index of the closer that matches an opener at `start`; the block at
`start` itself is not looked at. -/
def matchingCloser (blocks : List Block) (start : Nat) : Option Nat :=
  (splitScope? 0 (blocks.drop (start + 1))).map fun s => start + s.1.length

/-- How many bodies are open behind a block, if `depth` are open before it. -/
def depthAfter (depth : Nat) (block : Block) : Nat :=
  match block.tag.role with
  | .opener => depth + 1
  | .closer => depth - 1
  | .ordinary | .condition => depth

/-- The indentation of a block, if `depth` bodies are open before it. -/
def drawnDepth (depth : Nat) (block : Block) : Nat :=
  match block.tag.role with
  | .closer => depth - 1
  | .opener | .ordinary | .condition => depth

/-- How many bodies are open at each place of a sequence where a block can be
inserted: before the first block, and behind every block. -/
def slotDepths (depth : Nat) : List Block → List Nat
  | [] => [depth]
  | block :: rest => depth :: slotDepths (depthAfter depth block) rest

/-- The indentation of each block of a sequence. -/
def blockDepths (depth : Nat) : List Block → List Nat
  | [] => []
  | block :: rest => drawnDepth depth block :: blockDepths (depthAfter depth block) rest

theorem length_slotDepths (depth : Nat) (blocks : List Block) :
    (slotDepths depth blocks).length = blocks.length + 1 := by
  induction blocks generalizing depth with
  | nil => rfl
  | cons block rest ih => simp [slotDepths, ih]

theorem length_blockDepths (depth : Nat) (blocks : List Block) :
    (blockDepths depth blocks).length = blocks.length := by
  induction blocks generalizing depth with
  | nil => rfl
  | cons block rest ih => simp [blockDepths, ih]

/-- The indentation of the block with an identity; the last one counts. -/
def depthOf? (blocks : List Block) (id : BlockId) : Option Nat :=
  ((blocks.map Block.id).zip (blockDepths 0 blocks)).reverse.lookup id

end Blockwise
