import Blockwise.Numeral.Basic
import Blockwise.Text.Blank
import Blockwise.Workspace.Nesting

/-!
# Workspaces

A workspace is a sequence of blocks under the hands of a learner, with the
supply from which new blocks get their identities. It is changed by five edits.
An opener is inserted, moved and removed together with its body and its closer,
and a closer is never touched on its own, so a sequence that nests goes on to
nest.

An edit other than an insertion may have nothing to do. So such an edit reports
whether it changed anything, along with the workspace that it leaves. If several
blocks have the same identity, the first is meant.
-/

namespace Blockwise

structure Workspace where
  blocks : List Block := []
  ids : IdSupply := {}
deriving DecidableEq

/-- Splits a sequence at the first block with an identity. -/
def splitAt? (id : BlockId) : List Block → Option (List Block × Block × List Block)
  | [] => none
  | block :: rest =>
    if block.id = id then some ([], block, rest)
    else (splitAt? id rest).map fun s => (block :: s.1, s.2)

theorem append_of_splitAt? {id : BlockId} {blocks before after : List Block} {block : Block}
    (h : splitAt? id blocks = some (before, block, after)) :
    before ++ block :: after = blocks ∧ block.id = id := by
  induction blocks generalizing before with
  | nil => cases h
  | cons first rest ih =>
    rw [splitAt?] at h
    split at h
    case isTrue hid => cases h; exact ⟨rfl, hid⟩
    case isFalse =>
      obtain ⟨⟨before', block', after'⟩, hs, heq⟩ := Option.map_eq_some_iff.1 h
      cases heq
      obtain ⟨hrest, hid⟩ := ih hs
      exact ⟨by rw [List.cons_append, hrest], hid⟩

/-- What moves along with a block that is followed by `after`: the block alone,
or an opener up to its closer. The second part is what follows. A closer and an
opener without a closer cannot be moved. -/
def segment? (block : Block) (after : List Block) : Option (List Block × List Block) :=
  match block.tag.role with
  | .closer => none
  | .opener => (splitScope? 0 after).map fun s => (block :: s.1, s.2)
  | .ordinary | .condition => some ([block], after)

namespace LoopCount

/-- The count in a text field, as a double: a decimal numeral, which may have a
sign, leading zeros, and digits on only one side of the point. Anything else is
no count. -/
def ofText? (cs : List Char) : Option Float :=
  match Numeral.ofChars? cs with
  | some n => if n.whole.isEmpty && n.fractionDigits.isEmpty then none else some n.toFloat
  | none => none

end LoopCount

namespace Workspace

def position? (w : Workspace) (id : BlockId) : Option Nat :=
  w.blocks.findIdx? fun block => block.id == id

def get? (w : Workspace) (id : BlockId) : Option Block :=
  w.blocks.find? fun block => block.id == id

/-- What is inserted for a block of a kind: a loop has the default count, and an
opener is followed by its closer. -/
def insertion (kind : Kind) : List Instruction :=
  let count := if kind = .loop then some (.ofNat LoopCount.default) else none
  let closer : List Instruction := if kind.role = .opener then [.bare (.known .close)] else []
  { tag := .known kind, loopCount := count } :: closer

/-- Inserts a block of a kind before the block at `index`, or at the end. Gives
the identity of the new block along with the new workspace. -/
def insert (w : Workspace) (index : Nat) (kind : Kind) : BlockId × Workspace :=
  let new := w.ids.number (insertion kind)
  (w.ids.next,
    { blocks := w.blocks.take index ++ new ++ w.blocks.drop index
      ids := w.ids.skip new.length })

/-- The place that a slot is, counted among the other blocks, when a segment of
`span` blocks from `start` on is taken out. A slot inside the segment may have a
negative one. -/
def placeAmongOthers (start span slot : Nat) : Int :=
  if start < slot then slot - span else slot

/-- Moves a block, with its body if it has one, to the place before the block
that is at `target`, or to the end. It cannot be moved into its own body. -/
def move (w : Workspace) (id : BlockId) (target : Nat) : Bool × Workspace :=
  match splitAt? id w.blocks with
  | none => (false, w)
  | some (before, block, behind) =>
    match segment? block behind with
    | none => (false, w)
    | some (segment, after) =>
      let start := before.length
      if start < target ∧ target < start + segment.length then (false, w)
      else
        let place := placeAmongOthers start segment.length (min target w.blocks.length)
        if place = start then (false, w)
        else
          let others := before ++ after
          (true, { w with
            blocks := others.take place.toNat ++ segment ++ others.drop place.toNat })

/-- Removes a block, with its body if it has one. An opener without a closer is
removed alone. -/
def remove (w : Workspace) (id : BlockId) : Bool × Workspace :=
  match splitAt? id w.blocks with
  | none => (false, w)
  | some (before, block, behind) =>
    if block.tag.isCloser then (false, w)
    else
      let after := ((segment? block behind).map Prod.snd).getD behind
      (true, { w with blocks := before ++ after })

/-- Changes the block with an identity, if it is of a kind and is not as it should
be. -/
def update (w : Workspace) (id : BlockId) (kind : Kind) (done : Block → Bool)
    (change : Block → Block) : Bool × Workspace :=
  match splitAt? id w.blocks with
  | none => (false, w)
  | some (before, block, after) =>
    if block.tag = .known kind ∧ ¬ done block then
      (true, { w with blocks := before ++ change block :: after })
    else (false, w)

/-- Sets the count of a loop from the text in its field. Blanks around the text
do not matter, an empty text is ignored, and a text that is no number stands
for the default. -/
def setLoopCount (w : Workspace) (id : BlockId) (text : String) : Bool × Workspace :=
  let text := Text.trim text.toList
  if text.isEmpty then (false, w)
  else
    let count : Float := .ofNat (LoopCount.normalize (LoopCount.ofText? text))
    w.update id .loop (fun block => block.loopCount = some count)
      fun block => { block with loopCount := some count }

def setCondition (w : Workspace) (id : BlockId) (kind : Kind) : Bool × Workspace :=
  if kind.isCondition then
    w.update id .branch (fun block => block.condition = some (.known kind))
      fun block => { block with condition := some (.known kind) }
  else (false, w)

end Workspace

inductive Edit where
  | insert (index : Nat) (kind : Kind)
  | move (id : BlockId) (target : Nat)
  | remove (id : BlockId)
  | setLoopCount (id : BlockId) (text : String)
  | setCondition (id : BlockId) (kind : Kind)
deriving DecidableEq

namespace Workspace

/-- Makes an edit. An insertion always changes the workspace. -/
def attempt (w : Workspace) : Edit → Bool × Workspace
  | .insert index kind => (true, (w.insert index kind).2)
  | .move id target => w.move id target
  | .remove id => w.remove id
  | .setLoopCount id text => w.setLoopCount id text
  | .setCondition id kind => w.setCondition id kind

def edit (w : Workspace) (e : Edit) : Workspace := (w.attempt e).2

end Workspace

end Blockwise
