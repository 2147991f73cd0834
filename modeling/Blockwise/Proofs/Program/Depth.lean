import Blockwise.Block.Basic

/-!
# The depth count

Nesting depends on the roles of the blocks alone. Going through a list of roles
from left to right, an opener adds one to the number of open bodies and a closer
takes one away. `net` is what a whole list adds, and a list is `Balanced` when
no prefix of it takes away more than it adds and it adds nothing in all.

`level? depth roles` does the same count with natural numbers, from `depth` on;
it gives up at a closer that finds nothing to close. The main lemma says that
both counts are one (`level?_eq_some_iff`). A balanced part of a list then
changes no count, whether it is put in or taken out (`Balanced.level?_insert`),
and a list that is not balanced shows the role at fault
(`exists_of_level?_eq_none`, `exists_of_lt_level?`).
-/

namespace Blockwise

def Instruction.role (instruction : Instruction) : Role := instruction.tag.role

def roles (blocks : List Block) : List Role :=
  blocks.map fun block => block.role

@[simp] theorem roles_nil : roles [] = [] := rfl

@[simp] theorem roles_cons (block : Block) (rest : List Block) :
    roles (block :: rest) = block.role :: roles rest := rfl

@[simp] theorem roles_append (p q : List Block) :
    roles (p ++ q) = roles p ++ roles q :=
  List.map_append

/-- Where the roles of a sequence are split, the sequence can be split. -/
theorem exists_of_roles_eq {blocks : List Block} {p q : List Role} {role : Role}
    (h : roles blocks = p ++ role :: q) :
    ∃ before block after, blocks = before ++ block :: after ∧
      roles before = p ∧ block.role = role ∧ roles after = q := by
  obtain ⟨before, others, rfl, hp, hothers⟩ := List.map_eq_append_iff.1 h
  obtain ⟨block, after, rfl, hrole, hq⟩ := List.map_eq_cons_iff.1 hothers
  exact ⟨before, block, after, rfl, hp, hrole, hq⟩

/-! ## The count with a sign -/

/-- What a role adds to the number of open bodies. -/
def Role.weight : Role → Int
  | .opener => 1
  | .closer => -1
  | .ordinary | .condition => 0

theorem Role.opener_or_closer_or_weight_eq_zero (role : Role) :
    role = .opener ∨ role = .closer ∨ role.weight = 0 := by
  cases role <;> decide

theorem Role.weight_eq_zero_iff (role : Role) :
    role.weight = 0 ↔ role ≠ .opener ∧ role ≠ .closer := by
  cases role <;> decide

/-- The openers of a list less its closers. -/
def net (roles : List Role) : Int :=
  roles.count .opener - roles.count .closer

@[simp] theorem net_nil : net [] = 0 := rfl

@[simp] theorem net_cons (role : Role) (rest : List Role) :
    net (role :: rest) = role.weight + net rest := by
  cases role <;> simp [net, Role.weight] <;> omega

@[simp] theorem net_append (p q : List Role) : net (p ++ q) = net p + net q := by
  simp only [net, List.count_append]
  omega

/-- No prefix of a list has more closers than openers. -/
def NeverNegative (roles : List Role) : Prop :=
  ∀ p, p <+: roles → 0 ≤ net p

/-- A list in which openers and closers match: no prefix has more closers than
openers, and there are as many of both. -/
structure Balanced (roles : List Role) : Prop where
  neverNegative : NeverNegative roles
  net_eq_zero : net roles = 0

theorem forall_prefix_cons {α : Type} {P : List α → Prop} (a : α) (l : List α) :
    (∀ p, p <+: a :: l → P p) ↔ P [] ∧ ∀ p, p <+: l → P (a :: p) := by
  constructor
  · intro h
    refine ⟨h [] List.nil_prefix, fun p hp => h (a :: p) ?_⟩
    exact List.cons_prefix_cons.2 ⟨rfl, hp⟩
  · rintro ⟨hnil, hcons⟩ p hp
    rcases List.prefix_cons_iff.1 hp with rfl | ⟨q, rfl, hq⟩
    · exact hnil
    · exact hcons q hq

/-! ## The count that gives up -/

/-- The number of open bodies behind a role, if `depth` are open before it; none
if it is a closer that finds nothing to close. -/
def Role.level? (depth : Nat) : Role → Option Nat
  | .opener => some (depth + 1)
  | .closer => if depth = 0 then none else some (depth - 1)
  | .ordinary | .condition => some depth

/-- The number of open bodies behind a list of roles, if `depth` are open before
it; none if a closer finds nothing to close. -/
def level? : Nat → List Role → Option Nat
  | depth, [] => some depth
  | depth, role :: rest => (role.level? depth).bind fun d => level? d rest

@[simp] theorem level?_nil (depth : Nat) : level? depth [] = some depth := rfl

theorem level?_cons (depth : Nat) (role : Role) (rest : List Role) :
    level? depth (role :: rest) = (role.level? depth).bind fun d => level? d rest := rfl

theorem level?_append (depth : Nat) (p q : List Role) :
    level? depth (p ++ q) = (level? depth p).bind fun d => level? d q := by
  induction p generalizing depth with
  | nil => rfl
  | cons role rest ih =>
    rw [List.cons_append, level?_cons, level?_cons, Option.bind_assoc]
    congr 1
    funext d
    exact ih d

theorem Role.level?_eq_some_iff (depth e : Nat) (role : Role) :
    role.level? depth = some e ↔ 0 ≤ depth + role.weight ∧ (e : Int) = depth + role.weight := by
  cases role with
  | opener => simp [Role.level?, Role.weight]; omega
  | closer =>
    simp only [Role.level?, Role.weight]
    split <;> simp <;> omega
  | ordinary => simp [Role.level?, Role.weight]; omega
  | condition => simp [Role.level?, Role.weight]; omega

/-- Only a closer makes the count give up, when no body is open. -/
theorem Role.level?_eq_none_iff (depth : Nat) (role : Role) :
    role.level? depth = none ↔ role = .closer ∧ depth = 0 := by
  cases role <;> simp [Role.level?]

theorem Role.cases_of_level?_eq_some {depth d : Nat} {role : Role}
    (h : role.level? depth = some d) :
    (role = .opener ∧ d = depth + 1) ∨ (role = .closer ∧ depth = d + 1) ∨
      ((role = .ordinary ∨ role = .condition) ∧ d = depth) := by
  obtain ⟨hnonneg, hd⟩ := (Role.level?_eq_some_iff ..).1 h
  cases role <;> simp only [Role.weight] at hnonneg hd <;> simp <;> omega

/-- The count from `depth` on gives `e` exactly when `depth` more openers are
enough for every prefix, and `e` is `depth` and what the list adds. -/
theorem level?_eq_some_iff (depth e : Nat) (roles : List Role) :
    level? depth roles = some e ↔
      (∀ p, p <+: roles → 0 ≤ depth + net p) ∧ (e : Int) = depth + net roles := by
  induction roles generalizing depth with
  | nil => simp [List.prefix_nil]; omega
  | cons role rest ih =>
    -- The condition on the empty prefix is the one that the first role has to meet.
    rw [level?_cons, Option.bind_eq_some_iff, forall_prefix_cons]
    simp only [net_nil, net_cons]
    constructor
    · rintro ⟨f, hf, hrest⟩
      obtain ⟨hrole, hf⟩ := (Role.level?_eq_some_iff ..).1 hf
      obtain ⟨hp, he⟩ := (ih f).1 hrest
      refine ⟨⟨by omega, fun p hpre => ?_⟩, by omega⟩
      have := hp p hpre
      omega
    · rintro ⟨⟨-, hp⟩, he⟩
      have hrole := hp [] List.nil_prefix
      rw [net_nil] at hrole
      refine ⟨(depth + role.weight).toNat, ?_, ?_⟩
      · exact (Role.level?_eq_some_iff ..).2 ⟨by omega, by omega⟩
      · refine (ih _).2 ⟨fun p hpre => ?_, by omega⟩
        have := hp p hpre
        omega

theorem balanced_iff_level? (roles : List Role) :
    Balanced roles ↔ level? 0 roles = some 0 := by
  rw [level?_eq_some_iff]
  constructor
  · intro h
    refine ⟨fun p hp => ?_, ?_⟩
    · have := h.neverNegative p hp
      omega
    · rw [h.net_eq_zero]
      rfl
  · rintro ⟨hp, hnet⟩
    refine ⟨fun p hpre => ?_, by omega⟩
    have := hp p hpre
    omega

theorem neverNegative_iff_level? (roles : List Role) :
    NeverNegative roles ↔ ∃ e, level? 0 roles = some e := by
  constructor
  · intro h
    have hnet := h roles List.prefix_rfl
    refine ⟨(net roles).toNat, (level?_eq_some_iff ..).2 ⟨fun p hp => ?_, by omega⟩⟩
    have := h p hp
    omega
  · rintro ⟨e, he⟩ p hp
    have := ((level?_eq_some_iff ..).1 he).1 p hp
    omega

theorem net_of_level? {e : Nat} {roles : List Role} (h : level? 0 roles = some e) :
    net roles = e := by
  have := ((level?_eq_some_iff ..).1 h).2
  omega

/-- Where the count goes through, it does so from every greater depth. -/
theorem level?_add {depth e : Nat} {roles : List Role} (h : level? depth roles = some e)
    (extra : Nat) : level? (depth + extra) roles = some (e + extra) := by
  obtain ⟨hp, he⟩ := (level?_eq_some_iff ..).1 h
  refine (level?_eq_some_iff ..).2 ⟨fun p hpre => ?_, by omega⟩
  have := hp p hpre
  omega

/-! ## Balanced lists -/

theorem balanced_nil : Balanced [] := by
  rw [balanced_iff_level?, level?_nil]

theorem balanced_singleton {role : Role} (h : role.weight = 0) : Balanced [role] := by
  have hlevel : role.level? 0 = some 0 := (Role.level?_eq_some_iff ..).2 (by omega)
  rw [balanced_iff_level?, level?_cons, hlevel]
  rfl

namespace Balanced

variable {p q s : List Role}

/-- A balanced list leaves every count as it is. -/
theorem level?_eq (h : Balanced p) (depth : Nat) : level? depth p = some depth := by
  refine (level?_eq_some_iff ..).2 ⟨fun r hr => ?_, ?_⟩
  · have := h.neverNegative r hr
    omega
  · rw [h.net_eq_zero]
    omega

/-- Whether a balanced list stands somewhere makes no difference to the count. -/
theorem level?_insert (h : Balanced s) (depth : Nat) (p q : List Role) :
    level? depth (p ++ s ++ q) = level? depth (p ++ q) := by
  simp only [level?_append, Option.bind_assoc]
  congr 1
  funext d
  rw [h.level?_eq d, Option.bind_some]

theorem insert_iff (h : Balanced s) (p q : List Role) :
    Balanced (p ++ s ++ q) ↔ Balanced (p ++ q) := by
  rw [balanced_iff_level?, balanced_iff_level?, h.level?_insert]

protected theorem append (hp : Balanced p) (hq : Balanced q) : Balanced (p ++ q) := by
  have h := hp.insert_iff [] q
  rw [List.nil_append, List.nil_append] at h
  exact h.2 hq

theorem scope (h : Balanced p) : Balanced (.opener :: p ++ [.closer]) := by
  have hpair : Balanced [.opener, .closer] := (balanced_iff_level? _).2 rfl
  exact (h.insert_iff [.opener] [.closer]).2 hpair

end Balanced

/-! ## The role at fault -/

/-- The count gives up at the first closer that finds nothing to close. -/
theorem exists_of_level?_eq_none {depth : Nat} {roles : List Role}
    (h : level? depth roles = none) :
    ∃ p q, roles = p ++ .closer :: q ∧ level? depth p = some 0 := by
  induction roles generalizing depth with
  | nil => simp at h
  | cons role rest ih =>
    rw [level?_cons] at h
    cases hrole : role.level? depth with
    | none =>
      obtain ⟨rfl, rfl⟩ := (Role.level?_eq_none_iff ..).1 hrole
      exact ⟨[], rest, rfl, rfl⟩
    | some d =>
      rw [hrole, Option.bind_some] at h
      obtain ⟨p, q, rfl, hp⟩ := ih h
      refine ⟨role :: p, q, rfl, ?_⟩
      rw [level?_cons, hrole, Option.bind_some, hp]

/-- Where more bodies are open behind a list than before it, the innermost of
them was begun by an opener behind which the list is balanced. -/
theorem exists_of_lt_level? {depth e : Nat} {roles : List Role}
    (h : level? depth roles = some e) (hlt : depth < e) :
    ∃ p q, roles = p ++ .opener :: q ∧ Balanced q ∧ level? depth p = some (e - 1) := by
  -- The list is taken apart from its end. A closer there ends the innermost body
  -- that is open before it, and the search goes on in front of that body.
  induction hn : roles.length using Nat.strongRecOn generalizing roles e with
  | ind n ih =>
    subst hn
    rcases List.eq_nil_or_concat roles with rfl | ⟨init, role, rfl⟩
    · simp only [level?_nil, Option.some.injEq] at h
      omega
    · rw [List.concat_eq_append] at h ih ⊢
      rw [level?_append, Option.bind_eq_some_iff] at h
      obtain ⟨f, hinit, hrole⟩ := h
      rw [level?_cons, Option.bind_eq_some_iff] at hrole
      obtain ⟨e', hrole, he⟩ := hrole
      obtain rfl : e' = e := Option.some.inj he
      obtain ⟨-, hweight⟩ := (Role.level?_eq_some_iff ..).1 hrole
      rcases role.opener_or_closer_or_weight_eq_zero with rfl | rfl | hleaf
      · obtain rfl : e' = f + 1 := by simp only [Role.weight] at hweight; omega
        exact ⟨init, [], rfl, balanced_nil, hinit⟩
      · obtain rfl : f = e' + 1 := by simp only [Role.weight] at hweight; omega
        obtain ⟨p, q, rfl, hq, hp⟩ := ih _ (by simp) hinit (by omega) rfl
        obtain ⟨p', q', rfl, hq', hp'⟩ := ih _ (by simp) hp hlt rfl
        refine ⟨p', q' ++ (.opener :: q ++ [.closer]), by simp, ?_, hp'⟩
        exact hq'.append hq.scope
      · obtain rfl : e' = f := by omega
        obtain ⟨p, q, rfl, hq, hp⟩ := ih _ (by simp) hinit hlt rfl
        exact ⟨p, q ++ [role], by simp, hq.append (balanced_singleton hleaf), hp⟩

end Blockwise
