import Blockwise.Proofs.Program.Preorder
import Blockwise.Run.Basic

/-!
# Faults of nodes

A node is `Runnable` when it breaks no rule by itself, and `Breaks` says which
rule it breaks otherwise. Both look at the node and at whether it has a body,
and at nothing else above or below it; `Node.fault?` computes the rule. In a
program that was read from a sequence, a node without a fault is runnable, so if
not all nodes are, there is a first one with a fault
(`Program.WellFormed.exists_firstFault`).
-/

namespace Blockwise

namespace Node

/-- What a node must look like to run: there is no second start, a loop has a
body, a branch has the condition of the catalog, and all else is a movement or a
message. -/
structure Runnable (node : Node) : Prop where
  not_start : node.tag ≠ .known .start
  body : node.tag = .known .loop → node.children ≠ []
  condition : node.tag = .known .branch →
    node.instruction.condition = some (.known .goalReached)
  motion_or_looks : node.tag ≠ .known .loop → node.tag ≠ .known .branch →
    ∃ kind, node.tag = .known kind ∧ (kind.category = .motion ∨ kind.category = .looks)

/-- The rule that a node breaks by itself. -/
inductive Breaks (node : Node) : RunError → Prop
  | duplicateStart (tag_eq : node.tag = .known .start) : Breaks node .duplicateStart
  | emptyLoop (tag_eq : node.tag = .known .loop) (no_body : node.children = []) :
      Breaks node .emptyLoop
  | conditionUnset (tag_eq : node.tag = .known .branch)
      (unset : node.instruction.condition = none) : Breaks node .conditionUnset
  | unknownCondition {condition : Tag} (tag_eq : node.tag = .known .branch)
      (set : node.instruction.condition = some condition)
      (unknown : condition ≠ .known .goalReached) : Breaks node (.unknownCondition condition)
  | unsupportedBlock (tag_eq : node.tag = .known .goalReached ∨ ∃ text, node.tag = .unknown text) :
      Breaks node (.unsupportedBlock node.tag)

/-- The rule that a node breaks by itself, if there is one. Being computed, it
can be looked for in a list. -/
def fault? (node : Node) : Option RunError :=
  match node.tag with
  | .known .start => some .duplicateStart
  | .known .loop => if node.children.isEmpty then some .emptyLoop else none
  | .known .branch =>
    match node.instruction.condition with
    | none => some .conditionUnset
    | some (.known .goalReached) => none
    | some condition => some (.unknownCondition condition)
  | .known .goalReached | .unknown _ => some (.unsupportedBlock node.tag)
  | .known .move | .known .jump | .known (.say _) | .known .close => none

theorem breaks_of_fault?_eq_some {node : Node} {e : RunError} (h : node.fault? = some e) :
    node.Breaks e := by
  unfold fault? at h
  split at h
  case h_1 htag => cases h; exact .duplicateStart htag
  case h_2 htag =>
    split at h
    case isTrue hempty => cases h; exact .emptyLoop htag (List.isEmpty_iff.1 hempty)
    case isFalse => cases h
  case h_3 htag =>
    split at h
    case h_1 hcondition => cases h; exact .conditionUnset htag hcondition
    case h_2 => cases h
    case h_3 condition hunknown hcondition =>
      cases h
      exact .unknownCondition htag hcondition hunknown
  case h_4 htag => cases h; exact .unsupportedBlock (.inl htag)
  case h_5 text htag => cases h; exact .unsupportedBlock (.inr ⟨text, htag⟩)
  all_goals cases h

theorem WellFormed.runnable {node : Node} (hwell : node.WellFormed) (h : node.fault? = none) :
    node.Runnable where
  not_start := by
    intro htag
    simp [fault?, htag] at h
  body := by
    intro htag hchildren
    simp [fault?, htag, hchildren] at h
  condition := by
    intro htag
    cases hset : node.instruction.condition with
    | none => simp [fault?, htag, hset] at h
    | some condition =>
      by_cases hgoal : condition = .known .goalReached
      · rw [hgoal]
      · simp [fault?, htag, hset] at h
  motion_or_looks := by
    intro hloop hbranch
    cases htag : node.tag with
    | unknown text => simp [fault?, htag] at h
    | known kind =>
      cases kind with
      | move | jump => exact ⟨_, rfl, .inl rfl⟩
      | say message => exact ⟨_, rfl, .inr rfl⟩
      | loop => exact absurd htag hloop
      | branch => exact absurd htag hbranch
      | close => exact absurd htag hwell.tag_ne_close
      | start | goalReached => simp [fault?, htag] at h

theorem Runnable.fault?_eq_none {node : Node} (h : node.Runnable) : node.fault? = none := by
  by_cases hloop : node.tag = .known .loop
  · simp [fault?, hloop, h.body hloop]
  · by_cases hbranch : node.tag = .known .branch
    · simp [fault?, hbranch, h.condition hbranch]
    · obtain ⟨kind, htag, hkind⟩ := h.motion_or_looks hloop hbranch
      cases kind with
      | move | jump | say => simp [fault?, htag]
      | start => exact absurd htag h.not_start
      | loop => exact absurd htag hloop
      | branch => exact absurd htag hbranch
      | close | goalReached => rcases hkind with hkind | hkind <;> cases hkind

end Node

/-- `node` is the first of some nodes that cannot run, and `e` is the rule that
it breaks. -/
structure FirstFault (nodes before : List Node) (node : Node) (after : List Node) (e : RunError) :
    Prop where
  split : nodes = before ++ node :: after
  runnable_before : ∀ n ∈ before, n.Runnable
  not_runnable : ¬ node.Runnable
  breaks : node.Breaks e

/-- If not all nodes of a program can run, there is a first one that cannot. -/
theorem Program.WellFormed.exists_firstFault {program : Program} (hwell : program.WellFormed)
    (h : ¬ ∀ n ∈ program.preorder, n.Runnable) :
    ∃ before node after e, FirstFault program.preorder before node after e ∧
      program.preorder.findSome? Node.fault? = some e := by
  have hnone : ∀ n ∈ program.preorder, n.fault? = none → n.Runnable := fun n hn =>
    (hwell.of_mem_preorder n hn).runnable
  cases hfault : program.preorder.findSome? Node.fault? with
  | none => exact absurd (fun n hn => hnone n hn (List.findSome?_eq_none_iff.1 hfault n hn)) h
  | some e =>
    obtain ⟨before, node, after, hsplit, hnode, hbefore⟩ := List.findSome?_eq_some_iff.1 hfault
    have hmem : ∀ n ∈ before, n ∈ program.preorder := fun n hn =>
      hsplit ▸ List.mem_append_left _ hn
    refine ⟨before, node, after, e, ⟨hsplit, fun n hn => hnone n (hmem n hn) (hbefore n hn),
      fun hrunnable => ?_, Node.breaks_of_fault?_eq_some hnode⟩, rfl⟩
    rw [hrunnable.fault?_eq_none] at hnode
    cases hnode

end Blockwise
