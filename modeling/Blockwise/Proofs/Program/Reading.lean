import Blockwise.Program.Basic
import Blockwise.Proofs.Program.Depth

/-!
# Reading and the depth count

`Program.ofBlocks` keeps a stack of open bodies and stops at the first fault.
Here it is compared with the depth count. The invariant is that the stack is as
high as the count says (`read_append`), and that the bodies below it are not
touched. So a sequence is read exactly when its roles are balanced
(`nests_iff_balanced`), and otherwise the fault is found at the block that the
count finds.
-/

namespace Blockwise

/-- A sequence that can be read as a program. -/
def Nests (blocks : List Block) : Prop :=
  ∃ program, Program.ofBlocks blocks = .ok program

namespace Program

theorem read_opener {block : Block} (h : block.role = .opener) (outer : List OpenBody)
    (body : List Node) (rest : List Block) :
    read outer body (block :: rest) = read (⟨block, body⟩ :: outer) [] rest := by
  unfold Instruction.role at h
  simp only [read, h]

theorem read_closer_nil {block : Block} (h : block.role = .closer)
    (body : List Node) (rest : List Block) :
    read [] body (block :: rest) = .error (.unmatched block) := by
  unfold Instruction.role at h
  simp only [read, h]

theorem read_closer_cons {block : Block} (h : block.role = .closer) (innermost : OpenBody)
    (outer : List OpenBody) (body : List Node) (rest : List Block) :
    read (innermost :: outer) body (block :: rest) =
      read outer (⟨innermost.opener.toInstruction, body.reverse⟩ :: innermost.before) rest := by
  unfold Instruction.role at h
  simp only [read, h]

theorem read_statement {block : Block} (h : block.role.weight = 0) (outer : List OpenBody)
    (body : List Node) (rest : List Block) :
    read outer body (block :: rest) = read outer (.leaf block.tag :: body) rest := by
  unfold Instruction.role at h
  cases hrole : block.tag.role with
  | opener => rw [hrole] at h; exact absurd h (by decide)
  | closer => rw [hrole] at h; exact absurd h (by decide)
  | ordinary => simp only [read, hrole]
  | condition => simp only [read, hrole]

/-- Reading goes on behind a part of a sequence with as many open bodies as the
count says, and has not touched the bodies that were not counted. -/
theorem read_append (top : List OpenBody) (body : List Node) {e : Nat} {p : List Block}
    (h : level? top.length (roles p) = some e) :
    ∃ top' body', top'.length = e ∧ ∀ outer rest,
      read (top ++ outer) body (p ++ rest) = read (top' ++ outer) body' rest := by
  -- `top` are the bodies that the count knows of, `outer` those below them. A closer
  -- never reaches `outer`, as the count would have given up before.
  induction p generalizing top body with
  | nil => exact ⟨top, body, Option.some.inj h, fun _ _ => rfl⟩
  | cons block p ih =>
    rw [roles_cons, level?_cons, Option.bind_eq_some_iff] at h
    obtain ⟨d, hd, hp⟩ := h
    rcases block.role.opener_or_closer_or_weight_eq_zero with hopener | hcloser | hleaf
    · rw [hopener] at hd
      obtain rfl : top.length + 1 = d := Option.some.inj hd
      obtain ⟨top', body', htop', hread⟩ := ih (⟨block, body⟩ :: top) [] hp
      refine ⟨top', body', htop', fun outer rest => ?_⟩
      rw [List.cons_append, read_opener hopener, ← List.cons_append, hread]
    · rw [hcloser] at hd
      cases top with
      | nil => cases hd
      | cons innermost top =>
        obtain rfl : top.length = d := Option.some.inj hd
        obtain ⟨top', body', htop', hread⟩ := ih top
          (⟨innermost.opener.toInstruction, body.reverse⟩ :: innermost.before) hp
        refine ⟨top', body', htop', fun outer rest => ?_⟩
        rw [List.cons_append, List.cons_append, read_closer_cons hcloser, hread]
    · obtain ⟨-, hd⟩ := (Role.level?_eq_some_iff ..).1 hd
      obtain rfl : d = top.length := by omega
      obtain ⟨top', body', htop', hread⟩ := ih top (.leaf block.tag :: body) hp
      refine ⟨top', body', htop', fun outer rest => ?_⟩
      rw [List.cons_append, read_statement hleaf, hread]

/-- A balanced part of a sequence leaves the open bodies as they are. -/
theorem read_balanced {p : List Block} (h : Balanced (roles p)) (body : List Node) :
    ∃ body', ∀ outer rest, read outer body (p ++ rest) = read outer body' rest := by
  obtain ⟨top', body', htop', hread⟩ := read_append [] body (h.level?_eq 0)
  obtain rfl := List.eq_nil_of_length_eq_zero htop'
  exact ⟨body', hread⟩

theorem nests_of_balanced {blocks : List Block} (h : Balanced (roles blocks)) :
    Nests blocks := by
  obtain ⟨body, hread⟩ := read_balanced h []
  refine ⟨body.reverse, ?_⟩
  have := hread [] []
  rw [List.append_nil] at this
  exact this

/-- A closer behind a balanced part is refused, whatever follows it. -/
theorem ofBlocks_excess {before : List Block} {closer : Block} (h : Balanced (roles before))
    (hcloser : closer.role = .closer) (rest : List Block) :
    ofBlocks (before ++ closer :: rest) = .error (.unmatched closer) := by
  obtain ⟨body, hread⟩ := read_balanced h []
  rw [ofBlocks, hread, read_closer_nil hcloser]

/-- An opener is refused when only a balanced part follows it, unless there was
a fault before it. -/
theorem ofBlocks_unclosed {before after : List Block} {opener : Block}
    (hbefore : NeverNegative (roles before)) (hopener : opener.role = .opener)
    (hafter : Balanced (roles after)) :
    ofBlocks (before ++ opener :: after) = .error (.unclosed opener) := by
  obtain ⟨e, he⟩ := (neverNegative_iff_level? _).1 hbefore
  obtain ⟨outer, body, -, hread⟩ := read_append [] [] he
  obtain ⟨body', hread'⟩ := read_balanced hafter []
  have h := hread [] (opener :: after)
  rw [List.nil_append, List.append_nil] at h
  rw [ofBlocks, h, read_opener hopener]
  have h' := hread' (⟨opener, body⟩ :: outer) []
  rw [List.append_nil] at h'
  rw [h', read]

end Program

/-- `closer` is the first block of a sequence that makes a prefix have more
closers than openers, and `before` is what comes before it. -/
structure FirstExcess (blocks before : List Block) (closer : Block) : Prop where
  isPrefix : before ++ [closer] <+: blocks
  neverNegative : NeverNegative (roles before)
  negative : net (roles (before ++ [closer])) < 0

/-- `opener` is the last opener of a sequence that the closers behind it do not
close. A body is closed as soon as more bodies are ended behind its opener than
begun. -/
structure LastOpen (blocks before : List Block) (opener : Block) (after : List Block) :
    Prop where
  split : blocks = before ++ opener :: after
  isOpener : opener.role = .opener
  isOpen : NeverNegative (roles after)
  isLast : ∀ p later q, after = p ++ later :: q → later.role = .opener →
    ¬ NeverNegative (roles q)

theorem firstExcess_of_balanced {before : List Block} {closer : Block} (after : List Block)
    (hbefore : Balanced (roles before)) (hcloser : closer.role = .closer) :
    FirstExcess (before ++ closer :: after) before closer where
  isPrefix := ⟨after, by rw [List.append_assoc, List.singleton_append]⟩
  neverNegative := hbefore.neverNegative
  negative := by
    rw [roles_append, roles_cons, net_append, net_cons, hbefore.net_eq_zero, hcloser]
    decide

theorem lastOpen_of_balanced {opener : Block} {after : List Block} (before : List Block)
    (hopener : opener.role = .opener) (hafter : Balanced (roles after)) :
    LastOpen (before ++ opener :: after) before opener after where
  split := rfl
  isOpener := hopener
  isOpen := hafter.neverNegative
  isLast := by
    rintro p later q rfl hlater hq
    have hp := hafter.neverNegative (roles p) (by rw [roles_append]; exact List.prefix_append ..)
    have hnet := hafter.net_eq_zero
    have hqnet := hq (roles q) List.prefix_rfl
    rw [roles_append, roles_cons, net_append, net_cons, hlater, Role.weight] at hnet
    omega

namespace Program

/-- If some prefix has more closers than openers, the first closer that makes it
so is refused, whatever follows it. -/
theorem exists_excess_of_level?_eq_none {blocks : List Block}
    (h : level? 0 (roles blocks) = none) :
    ∃ before closer, FirstExcess blocks before closer ∧
      ofBlocks blocks = .error (.unmatched closer) ∧
      ∀ rest, ofBlocks (before ++ closer :: rest) = .error (.unmatched closer) := by
  obtain ⟨p, q, hroles, hp⟩ := exists_of_level?_eq_none h
  obtain ⟨before, closer, after, rfl, rfl, hcloser, -⟩ := exists_of_roles_eq hroles
  have hbefore : Balanced (roles before) := (balanced_iff_level? _).2 hp
  have hread := ofBlocks_excess hbefore hcloser
  exact ⟨before, closer, firstExcess_of_balanced after hbefore hcloser, hread after, hread⟩

theorem exists_lastOpen_of_level?_pos {blocks : List Block} {e : Nat}
    (h : level? 0 (roles blocks) = some e) (he : 0 < e) :
    ∃ before opener after, LastOpen blocks before opener after ∧
      ofBlocks blocks = .error (.unclosed opener) := by
  obtain ⟨p, q, hroles, hq, hp⟩ := exists_of_lt_level? h he
  obtain ⟨before, opener, after, rfl, rfl, hopener, rfl⟩ := exists_of_roles_eq hroles
  have hbefore : NeverNegative (roles before) := (neverNegative_iff_level? _).2 ⟨_, hp⟩
  exact ⟨before, opener, after, lastOpen_of_balanced before hopener hq,
    ofBlocks_unclosed hbefore hopener hq⟩

end Program

theorem nests_iff_balanced (blocks : List Block) :
    Nests blocks ↔ Balanced (roles blocks) := by
  constructor
  · rintro ⟨program, hprogram⟩
    rw [balanced_iff_level?]
    cases hlevel : level? 0 (roles blocks) with
    | none =>
      obtain ⟨-, closer, -, hfault, -⟩ := Program.exists_excess_of_level?_eq_none hlevel
      rw [hprogram] at hfault
      cases hfault
    | some e =>
      rcases Nat.eq_zero_or_pos e with rfl | he
      · rfl
      · obtain ⟨-, opener, -, -, hfault⟩ := Program.exists_lastOpen_of_level?_pos hlevel he
        rw [hprogram] at hfault
        cases hfault
  · exact Program.nests_of_balanced

/-- Some prefix of a list has more closers than openers. -/
def Overclosed (roles : List Role) : Prop :=
  ∃ p, p <+: roles ∧ net p < 0

/-- No prefix of a list has more closers than openers, and in all there are more
openers. -/
structure LeftOpen (roles : List Role) : Prop where
  neverNegative : NeverNegative roles
  net_pos : 0 < net roles

/-- Reading a sequence agrees with the depth count: exactly one of three cases
holds, and each has its own outcome. A balanced sequence is read. In an
overclosed one, the first closer that is too much is reported, whatever follows
it. In one that is left open, the innermost opener that is still open at the end
is reported, by its label. -/
theorem ofBlocks_by_depth (blocks : List Block) :
    ((Balanced (roles blocks) ∧ ∃ program, Program.ofBlocks blocks = .ok program) ∨
      (Overclosed (roles blocks) ∧ ∃ before closer, FirstExcess blocks before closer ∧
        Program.ofBlocks blocks = .error (.unmatched closer) ∧
        (∀ rest, Program.ofBlocks (before ++ closer :: rest) = .error (.unmatched closer)) ∧
        (NestingFault.unmatched closer).diagnostic =
          { code := ⟨101⟩
            category := .structural
            message := "The indentation doesn't line up. Check the order of your blocks."
            block := some closer.id }) ∨
      (LeftOpen (roles blocks) ∧ ∃ before opener after, LastOpen blocks before opener after ∧
        Program.ofBlocks blocks = .error (.unclosed opener) ∧
        (NestingFault.unclosed opener).diagnostic =
          { code := ⟨100⟩
            category := .structural
            message := "Close \"" ++ opener.tag.label ++
              "\" with an end block! Check the order of your blocks once more."
            block := some opener.id })) ∧
    ¬ (Balanced (roles blocks) ∧ Overclosed (roles blocks)) ∧
    ¬ (Balanced (roles blocks) ∧ LeftOpen (roles blocks)) ∧
    ¬ (Overclosed (roles blocks) ∧ LeftOpen (roles blocks)) := by
  refine ⟨?_, ?_, ?_, ?_⟩
  · cases hlevel : level? 0 (roles blocks) with
    | none =>
      right; left
      obtain ⟨before, closer, hfirst, hfault, hrest⟩ :=
        Program.exists_excess_of_level?_eq_none hlevel
      refine ⟨⟨roles (before ++ [closer]), ?_, hfirst.negative⟩, before, closer, hfirst, hfault,
        hrest, rfl⟩
      exact hfirst.isPrefix.map _
    | some e =>
      rcases Nat.eq_zero_or_pos e with rfl | he
      · left
        have hbalanced := (balanced_iff_level? _).2 hlevel
        exact ⟨hbalanced, Program.nests_of_balanced hbalanced⟩
      · right; right
        obtain ⟨before, opener, after, hlast, hfault⟩ :=
          Program.exists_lastOpen_of_level?_pos hlevel he
        have hopen : LeftOpen (roles blocks) :=
          { neverNegative := (neverNegative_iff_level? _).2 ⟨e, hlevel⟩
            net_pos := by rw [net_of_level? hlevel]; omega }
        exact ⟨hopen, before, opener, after, hlast, hfault, rfl⟩
  · rintro ⟨hbalanced, p, hp, hneg⟩
    have := hbalanced.neverNegative p hp
    omega
  · rintro ⟨hbalanced, hopen⟩
    have hpos := hopen.net_pos
    rw [hbalanced.net_eq_zero] at hpos
    omega
  · rintro ⟨⟨p, hp, hneg⟩, hopen⟩
    have := hopen.neverNegative p hp
    omega

end Blockwise
