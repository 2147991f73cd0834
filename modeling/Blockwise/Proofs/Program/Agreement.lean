import Mathlib.Data.List.Forall2
import Blockwise.Proofs.Program.Preorder

/-!
# Sequences that are read alike

A run has no use for identities, for the condition of a block that is no branch,
or for the count of one that is no loop; and of the count of a loop it uses only
the number of rounds. Instructions that differ in nothing else agree, and so do
nodes that carry them one by one.

Reading keeps agreement (`Program.read_agrees`): it goes through two sequences
that agree place by place in step, so it gives programs that agree, or it finds
the same fault at the same place. What the two sequences have to do with each
other at one place is left open there, as the place of the fault is read off
that relation (`Program.ofBlocks_agrees`).
-/

namespace Blockwise

/-- Two instructions that differ in nothing that a run has a use for. -/
structure Instruction.Agrees (a b : Instruction) : Prop where
  tag_eq : a.tag = b.tag
  condition_eq : a.tag = .known .branch → a.condition = b.condition
  count_eq : a.tag = .known .loop → a.count = b.count

theorem Instruction.Agrees.refl (instruction : Instruction) : instruction.Agrees instruction :=
  ⟨rfl, fun _ => rfl, fun _ => rfl⟩

/-- Two nodes of the same shape whose instructions agree at every depth. -/
inductive Node.Agrees : Node → Node → Prop
  | mk {a b : Instruction} {as bs : List Node} (instruction : a.Agrees b)
      (children : List.Forall₂ Node.Agrees as bs) : Node.Agrees ⟨a, as⟩ ⟨b, bs⟩

/-- Two programs of the same shape whose instructions agree at every depth. -/
def Program.Agrees (p q : Program) : Prop := List.Forall₂ Node.Agrees p q

theorem Node.Agrees.refl (node : Node) : node.Agrees node := by
  induction node using Node.induction with
  | mk instruction children ih => exact .mk (.refl instruction) (List.forall₂_same.2 ih)

theorem Program.Agrees.refl (program : Program) : program.Agrees program :=
  List.forall₂_same.2 fun node _ => .refl node

theorem Program.Agrees.reverse {p q : Program} (h : p.Agrees q) :
    Program.Agrees p.reverse q.reverse :=
  List.rel_reverse h

theorem Node.Agrees.tag_eq {a b : Node} (h : a.Agrees b) : a.tag = b.tag := by
  cases h with
  | mk instruction _ => exact instruction.tag_eq

theorem Node.agrees_leaf {a b : Instruction} (h : a.Agrees b) :
    (Node.leaf a.tag).Agrees (Node.leaf b.tag) := by
  rw [h.tag_eq]
  exact .refl _

/-! ## Reading in step -/

section

variable {R : Block → Block → Prop}

/-- Two bodies that are open at the same time. -/
structure OpenBody.Agrees (R : Block → Block → Prop) (a b : OpenBody) : Prop where
  opener : R a.opener b.opener
  before : Program.Agrees a.before b.before

/-- What comes of reading two sequences whose blocks are related place by place. -/
inductive Readings (R : Block → Block → Prop) :
    Except NestingFault Program → Except NestingFault Program → Prop
  | ok {p q : Program} (agrees : p.Agrees q) : Readings R (.ok p) (.ok q)
  | unclosed {a b : Block} (related : R a b) :
      Readings R (.error (.unclosed a)) (.error (.unclosed b))
  | unmatched {a b : Block} (related : R a b) :
      Readings R (.error (.unmatched a)) (.error (.unmatched b))

theorem Program.read_agrees (hR : ∀ a b, R a b → a.toInstruction.Agrees b.toInstruction)
    {blocks blocks' : List Block} (h : List.Forall₂ R blocks blocks')
    {outer outer' : List OpenBody} (houter : List.Forall₂ (OpenBody.Agrees R) outer outer')
    {body body' : Program} (hbody : body.Agrees body') :
    Readings R (read outer body blocks) (read outer' body' blocks') := by
  induction h generalizing outer outer' body body' with
  | nil =>
    cases houter with
    | nil => exact .ok hbody.reverse
    | cons hinnermost _ => exact .unclosed hinnermost.opener
  | @cons a b _ _ hab _ ih =>
    have hagrees := hR a b hab
    have hrole : b.role = a.role := congrArg Tag.role hagrees.tag_eq.symm
    rcases a.role.opener_or_closer_or_weight_eq_zero with hopener | hcloser | hleaf
    · rw [read_opener hopener, read_opener (hrole.trans hopener)]
      exact ih (.cons ⟨hab, hbody⟩ houter) .nil
    · cases houter with
      | nil =>
        rw [read_closer_nil hcloser, read_closer_nil (hrole.trans hcloser)]
        exact .unmatched hab
      | cons hinnermost houter =>
        rw [read_closer_cons hcloser, read_closer_cons (hrole.trans hcloser)]
        have hnode := Node.Agrees.mk (hR _ _ hinnermost.opener) hbody.reverse
        exact ih houter (.cons hnode hinnermost.before)
    · rw [read_statement hleaf, read_statement (by rw [hrole, hleaf])]
      exact ih houter (.cons (Node.agrees_leaf hagrees) hbody)

end

/-- Two blocks that agree and stand at the same place of two sequences. -/
structure OnePlace (p q : List Block) (a b : Block) : Prop where
  agrees : a.toInstruction.Agrees b.toInstruction
  place : ∃ i : Nat, p[i]? = some a ∧ q[i]? = some b

theorem forall₂_onePlace {p q : List Block}
    (h : List.Forall₂ (fun a b : Block => a.toInstruction.Agrees b.toInstruction) p q) :
    List.Forall₂ (OnePlace p q) p q := by
  obtain ⟨hlength, hget⟩ := List.forall₂_iff_get.1 h
  refine List.forall₂_iff_get.2 ⟨hlength, fun i hp hq => ⟨hget i hp hq, i, ?_, ?_⟩⟩
  · exact List.getElem?_eq_getElem hp
  · exact List.getElem?_eq_getElem hq

theorem Program.ofBlocks_agrees {p q : List Block}
    (h : List.Forall₂ (fun a b : Block => a.toInstruction.Agrees b.toInstruction) p q) :
    Readings (OnePlace p q) (ofBlocks p) (ofBlocks q) :=
  read_agrees (fun _ _ hab => hab.agrees) (forall₂_onePlace h) .nil .nil

end Blockwise
