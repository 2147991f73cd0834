import Mathlib.Data.List.Forall2
import Mathlib.Order.Bounds.Basic
import Blockwise.Proofs.Workspace.Hydration

/-!
# Hydration repairs no more than it has to

The entries of an array that can be used are its `Candidate`s, and each of them
yields one instruction. Of the candidates the balance leaves out some closers,
and behind them it adds some. It leaves out as many as the prefix with the most
closers has more than openers: fewer would leave one that ends nothing. The
invariant is `Repairs`, in which the count of bodies that are open before the
list is free (`exists_repairs`).
-/

namespace Blockwise.Hydration

/-! ## Candidates -/

/-- An object whose type is the tag of a kind. -/
structure Candidate where
  kind : Kind
  members : List (String × Json)

namespace Candidate

def ofJson? : Json → Option Candidate
  | .obj members =>
    match Json.memberOf? "type" members with
    | some (.str text) => (Kind.ofTag? text).map fun kind => { kind, members }
    | _ => none
  | _ => none

def role (c : Candidate) : Role := c.kind.role

/-- The instruction that a candidate is turned into: its own tag, a count only for
a loop and only from a number, and a condition only for a branch and only from
the tag of a condition. -/
structure Yields (c : Candidate) (instruction : Instruction) : Prop where
  tag : instruction.tag = .known c.kind
  loopCount : ∀ x, instruction.loopCount = some x ↔ c.kind = .loop ∧
    ∃ n, Json.memberOf? "loopCount" c.members = some (.num n) ∧ x = n.toFloat
  condition : ∀ tag, instruction.condition = some tag ↔ c.kind = .branch ∧
    ∃ chosen : Kind, chosen.isCondition = true ∧
      Json.memberOf? "conditionId" c.members = some (.str chosen.tag) ∧ tag = .known chosen

end Candidate

theorem loopCount?_eq_some_iff (members : List (String × Json)) (x : Float) :
    loopCount? members = some x ↔
      ∃ n, Json.memberOf? "loopCount" members = some (.num n) ∧ x = n.toFloat := by
  unfold loopCount?
  rw [Option.bind_eq_some_iff]
  constructor
  · rintro ⟨j, hj, hx⟩
    cases j with
    | num n => cases hx; exact ⟨n, hj, rfl⟩
    | null | bool | str | arr | obj | void => cases hx
  · rintro ⟨n, hn, rfl⟩
    exact ⟨.num n, hn, rfl⟩

theorem condition?_eq_some_iff (members : List (String × Json)) (tag : Tag) :
    condition? members = some tag ↔
      ∃ chosen : Kind, chosen.isCondition = true ∧
        Json.memberOf? "conditionId" members = some (.str chosen.tag) ∧ tag = .known chosen := by
  unfold condition?
  constructor
  · intro h
    obtain ⟨chosen, hchosen, rfl⟩ := Option.map_eq_some_iff.1 h
    obtain ⟨hfound, hcondition⟩ := Option.filter_eq_some_iff.1 hchosen
    obtain ⟨text, htext, hkind⟩ := Option.bind_eq_some_iff.1 hfound
    obtain ⟨j, hj, hstring⟩ := Option.bind_eq_some_iff.1 htext
    cases j with
    | str s =>
      cases hstring
      exact ⟨chosen, hcondition, by rw [hj, Kind.tag_of_ofTag? hkind], rfl⟩
    | null | bool | num | arr | obj | void => cases hstring
  · rintro ⟨chosen, hcondition, hmember, rfl⟩
    simp [hmember, Json.string?, hcondition]

namespace Candidate

def instruction (c : Candidate) : Instruction := Hydration.instruction c.kind c.members

theorem yields_instruction (c : Candidate) : c.Yields c.instruction where
  tag := rfl
  loopCount x := by
    rw [← loopCount?_eq_some_iff]
    simp [instruction, Hydration.instruction]
  condition tag := by
    rw [← condition?_eq_some_iff]
    simp [instruction, Hydration.instruction]

theorem candidate?_eq (entry : Json) :
    candidate? entry = (ofJson? entry).map instruction := by
  unfold candidate? ofJson?
  cases entry with
  | obj members =>
    cases htype : Json.memberOf? "type" members with
    | none => simp [Json.members?, htype]
    | some type =>
      cases type with
      | str text =>
        cases hkind : Kind.ofTag? text with
        | none => simp [Json.members?, Json.string?, htype, hkind]
        | some kind => simp [Json.members?, Json.string?, htype, hkind, instruction]
      | null | bool | num | arr | obj | void => simp [Json.members?, Json.string?, htype]
  | null | bool | num | str | arr | void => rfl

def closers (candidates : List Candidate) : Nat := (candidates.map role).count .closer

def openers (candidates : List Candidate) : Nat := (candidates.map role).count .opener

/-- By how much the closers of a prefix exceed its openers, for each prefix. -/
def excesses (candidates : List Candidate) : Set Int :=
  {excess | ∃ p, p <+: candidates ∧ excess = closers p - openers p}

theorem closers_cons (c : Candidate) (rest : List Candidate) :
    closers (c :: rest) = closers rest + if c.role = .closer then 1 else 0 := by
  simp [closers, List.count_cons]

theorem net_map_role (candidates : List Candidate) :
    net (candidates.map role) = openers candidates - closers candidates := rfl

end Candidate

open Candidate

theorem map_toInstruction_blocks_arr (ids : IdSupply) (items : List Json) :
    (blocks ids (.arr items)).1.map Block.toInstruction =
      balance 0 ((items.filterMap ofJson?).map Candidate.instruction) := by
  have hcandidates : items.filterMap candidate? =
      (items.filterMap ofJson?).map Candidate.instruction := by
    rw [List.map_filterMap]
    exact congrArg (List.filterMap · items) (funext candidate?_eq)
  rw [← hcandidates]
  exact ids.map_toInstruction_number _

/-! ## The repair -/

/-- What the balance does to a list of candidates that stands inside of `opened`
bodies: it keeps some, leaves out `dropped` closers and adds `added`. -/
structure Repairs (opened : Nat) (candidates kept : List Candidate) (dropped added : Nat) :
    Prop where
  sublist : kept.Sublist candidates
  others : kept.filter (fun c => c.role ≠ .closer) = candidates.filter (fun c => c.role ≠ .closer)
  closers_eq : closers kept + dropped = closers candidates
  kept_eq : dropped = 0 → kept = candidates
  added_eq : (added : Int) = opened + net (candidates.map role) + dropped
  /-- No prefix has so many closers that more than `dropped` of them end nothing. -/
  excess_le : ∀ p, p <+: candidates → -net (p.map role) ≤ opened + dropped
  excess_eq : dropped = 0 ∨ ∃ p, p <+: candidates ∧ -net (p.map role) = opened + dropped

namespace Repairs

theorem nil (opened : Nat) : Repairs opened [] [] 0 opened where
  sublist := List.Sublist.refl []
  others := rfl
  closers_eq := rfl
  kept_eq _ := rfl
  added_eq := by simp
  excess_le p hp := by simp [List.prefix_nil.1 hp]
  excess_eq := Or.inl rfl

variable {c : Candidate} {candidates rest kept : List Candidate}
  {opened d dropped added : Nat}

/-- A closer outside of all bodies is one more that is left out. -/
theorem drop (h : Repairs 0 rest kept dropped added) (hc : c.role = .closer) :
    Repairs 0 (c :: rest) kept (dropped + 1) added := by
  have hnet (p : List Candidate) : net ((c :: p).map role) = -1 + net (p.map role) := by
    rw [List.map_cons, net_cons, hc, Role.weight]
  constructor
  case sublist => exact h.sublist.cons c
  case others => rw [h.others, List.filter_cons_of_neg (by simp [hc])]
  case closers_eq => rw [closers_cons, if_pos hc, ← h.closers_eq, Nat.add_assoc]
  case kept_eq => exact fun hzero => absurd hzero (Nat.succ_ne_zero dropped)
  case added_eq =>
    have := h.added_eq
    rw [hnet]
    omega
  case excess_le =>
    refine (forall_prefix_cons ..).2 ⟨by simp; omega, fun p hp => ?_⟩
    have := h.excess_le p hp
    rw [hnet]
    omega
  case excess_eq =>
    right
    rcases h.excess_eq with rfl | ⟨p, hp, heq⟩
    · exact ⟨[c], List.prefix_append [c] rest, by rw [hnet]; rfl⟩
    · exact ⟨c :: p, List.cons_prefix_cons.2 ⟨rfl, hp⟩, by rw [hnet]; omega⟩

/-- Everything else is kept, and the count goes on. -/
theorem keep (h : Repairs d rest kept dropped added) (hc : c.role.level? opened = some d) :
    Repairs opened (c :: rest) (c :: kept) dropped added := by
  obtain ⟨-, hd⟩ := (Role.level?_eq_some_iff ..).1 hc
  have hnet (p : List Candidate) :
      opened + net ((c :: p).map role) = d + net (p.map role) := by
    rw [List.map_cons, net_cons, hd, Int.add_assoc]
  constructor
  case sublist => exact h.sublist.cons_cons c
  case others => rw [List.filter_cons, List.filter_cons, h.others]
  case closers_eq => rw [closers_cons, closers_cons, ← h.closers_eq, Nat.add_right_comm]
  case kept_eq => exact fun hzero => congrArg (c :: ·) (h.kept_eq hzero)
  case added_eq => rw [hnet, h.added_eq]
  case excess_le =>
    refine (forall_prefix_cons ..).2 ⟨by simp; omega, fun p hp => ?_⟩
    have := h.excess_le p hp
    have := hnet p
    omega
  case excess_eq =>
    refine h.excess_eq.imp_right fun ⟨p, hp, heq⟩ => ?_
    have := hnet p
    exact ⟨c :: p, List.cons_prefix_cons.2 ⟨rfl, hp⟩, by omega⟩

/-- As many closers are left out as the closers of some prefix exceed its openers,
and no prefix has more. -/
theorem isGreatest_excesses (h : Repairs 0 candidates kept dropped added) :
    IsGreatest (excesses candidates) (closers candidates - closers kept) := by
  have hclosers := h.closers_eq
  constructor
  · rcases h.excess_eq with hzero | ⟨p, hp, hexcess⟩
    · refine ⟨[], List.nil_prefix, ?_⟩
      change (closers candidates - closers kept : Int) = 0
      omega
    · rw [net_map_role] at hexcess
      exact ⟨p, hp, by omega⟩
  · rintro excess ⟨p, hp, rfl⟩
    have hle := h.excess_le p hp
    rw [net_map_role] at hle
    omega

theorem added_eq_sub (h : Repairs 0 candidates kept dropped added) :
    (added : Int) = openers candidates - closers kept := by
  have hclosers := h.closers_eq
  have hadded := h.added_eq
  rw [net_map_role] at hadded
  omega

theorem eq_of_balanced (h : Repairs 0 candidates kept dropped added)
    (hbalanced : Balanced (candidates.map role)) : kept = candidates ∧ added = 0 := by
  have hzero : dropped = 0 := by
    refine h.excess_eq.elim id fun ⟨p, hp, hexcess⟩ => ?_
    have := hbalanced.neverNegative _ (hp.map role)
    omega
  have hadded := h.added_eq
  rw [hbalanced.net_eq_zero] at hadded
  exact ⟨h.kept_eq hzero, by omega⟩

end Repairs

theorem exists_repairs (opened : Nat) (candidates : List Candidate) :
    ∃ kept dropped added, Repairs opened candidates kept dropped added ∧
      balance opened (candidates.map Candidate.instruction) =
        kept.map Candidate.instruction ++ List.replicate added (.bare (.known .close)) := by
  induction candidates generalizing opened with
  | nil => exact ⟨[], 0, opened, .nil opened, balance_nil opened⟩
  | cons c rest ih =>
    rw [List.map_cons]
    cases hlevel : c.instruction.role.level? opened with
    | none =>
      obtain ⟨hcloser, rfl⟩ := (Role.level?_eq_none_iff ..).1 hlevel
      obtain ⟨kept, dropped, added, hrepairs, heq⟩ := ih 0
      exact ⟨kept, dropped + 1, added, hrepairs.drop hcloser, by rw [balance_of_none hlevel, heq]⟩
    | some d =>
      obtain ⟨kept, dropped, added, hrepairs, heq⟩ := ih d
      exact ⟨c :: kept, dropped, added, hrepairs.keep hlevel,
        by rw [balance_of_some hlevel, heq, List.map_cons, List.cons_append]⟩

/-- An array hydrates to the instructions of some of its candidates, in order, and
`added` closers. Nothing but closers is left out: as many as the closers exceed
the openers in the prefix where they do so most. The result always nests, and
balanced candidates are left as they are. -/
theorem exists_least_repair (ids : IdSupply) (items : List Json) :
    let candidates := items.filterMap ofJson?
    ∃ (kept : List Candidate) (instructions : List Instruction) (added : Nat),
      (blocks ids (.arr items)).1.map Block.toInstruction =
        instructions ++ List.replicate added (.bare (.known .close)) ∧
      List.Forall₂ Yields kept instructions ∧
      kept.Sublist candidates ∧
      kept.filter (fun c => c.role ≠ .closer) = candidates.filter (fun c => c.role ≠ .closer) ∧
      IsGreatest (excesses candidates) (closers candidates - closers kept) ∧
      (added : Int) = openers candidates - closers kept ∧
      Nests (blocks ids (.arr items)).1 ∧
      (Balanced (candidates.map role) → kept = candidates ∧ added = 0) := by
  intro candidates
  obtain ⟨kept, dropped, added, h, heq⟩ := exists_repairs 0 candidates
  have hyields : List.Forall₂ Yields kept (kept.map Candidate.instruction) :=
    List.forall₂_map_right_iff.2 (List.forall₂_same.2 fun c _ => c.yields_instruction)
  exact ⟨kept, kept.map Candidate.instruction, added,
    (map_toInstruction_blocks_arr ids items).trans heq, hyields, h.sublist, h.others,
    h.isGreatest_excesses, h.added_eq_sub, (nests_iff_balanced _).2 (balanced_blocks ids _),
    h.eq_of_balanced⟩

/-- A loop and a branch in it, among entries that are no candidates. -/
theorem exists_least_repair_nested :
    let items : List Json :=
      [.obj [("type", .str "control_for_loop"), ("loopCount", .num (.int 2))], .null,
        .obj [("type", .str "control_if_goal"), ("conditionId", .str "motion_move")],
        .obj [("type", .str "motion_fly")], .obj [("type", .str "control_end")], .arr [],
        .obj [("type", .str "control_end"), ("loopCount", .num (.int 3))]]
    let candidates := items.filterMap ofJson?
    candidates.map Candidate.kind = [.loop, .branch, .close, .close] ∧
      Balanced (candidates.map role) ∧
      ∃ instructions, List.Forall₂ Yields candidates instructions ∧
        (blocks {} (.arr items)).1.map Block.toInstruction = instructions := by
  intro items candidates
  have hbalanced : Balanced (candidates.map role) := (balanced_iff_level? _).2 (by decide)
  obtain ⟨kept, instructions, added, hblocks, hyields, -, -, -, -, -, hkept⟩ :=
    exists_least_repair {} items
  obtain ⟨rfl, rfl⟩ := hkept hbalanced
  rw [List.replicate_zero, List.append_nil] at hblocks
  exact ⟨by decide, hbalanced, instructions, hyields, hblocks⟩

end Blockwise.Hydration
