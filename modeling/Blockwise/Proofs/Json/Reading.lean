import Blockwise.Json.Reader
import Blockwise.Proofs.Json.InRange
import Blockwise.Proofs.Json.Record
import Blockwise.Proofs.Numeral.Scale

/-!
# What is read is in range

A value that is read from a JSON text is in range (`inRange_of_ofString?`). Its
numbers are in range as tokens, and no step of the reader makes a number: it only
puts values where they belong (`ReaderState.InRange.step`).
-/

namespace Blockwise.Json

/-! ## Tokens -/

theorem Number.inRange_of_ofNumeral? {n : Numeral} {number : Number}
    (h : ofNumeral? n = some number) : number.InRange := by
  unfold ofNumeral? at h
  dsimp only at h
  generalize (if n.isNegative = true then -(Numeral.ofDigits n.whole : Int)
    else Numeral.ofDigits n.whole) = value at h
  split at h
  · next hfits =>
    cases h
    simp only [Bool.and_eq_true, decide_eq_true_eq] at hfits
    exact ⟨hfits.1.2, hfits.2⟩
  · obtain ⟨x, hx, rfl⟩ := Option.map_eq_some_iff.1 h
    have hfinite := Binary64.isFinite_of_magnitude? hx
    unfold InRange
    dsimp only
    split
    · exact Binary64.isFinite_neg hfinite
    · exact hfinite

/-- The value of a token, if it is one, is in range. -/
def Token.InRange (token : Token) : Prop := ∀ j, token = .value j → j.InRange

theorem inRange_of_numberToken? {cs : List Char} {token : Token}
    (h : numberToken? cs = some token) : token.InRange := by
  unfold numberToken? at h
  split at h
  · split at h
    · cases h
      rintro j ⟨⟩
      split
      · next hnumber => exact .num (Number.inRange_of_ofNumeral? hnumber)
      · exact .void
    · cases h
  · cases h

theorem inRange_of_readToken? {cs rest : List Char} {token : Token}
    (h : readToken? cs = some (token, rest)) : token.InRange := by
  unfold readToken? at h
  split at h
  case h_7 =>
    obtain ⟨read, -, heq⟩ := Option.map_eq_some_iff.1 h
    cases heq
    exact nofun
  case h_8 | h_9 =>
    cases h
    rintro j ⟨⟩
    exact .bool _
  case h_10 =>
    cases h
    rintro j ⟨⟩
    exact .null
  case h_11 =>
    obtain ⟨found, hfound, heq⟩ := Option.map_eq_some_iff.1 h
    cases heq
    exact inRange_of_numberToken? hfound
  case h_12 => cases h
  all_goals
    cases h
    exact nofun

theorem inRange_of_mem_tokens? {cs : List Char} {tokens : List Token}
    (h : tokens? cs = some tokens) : ∀ token ∈ tokens, token.InRange := by
  fun_induction tokens? cs generalizing tokens with
  | case1 => cases h; exact List.forall_mem_nil _
  | case2 cs _ token rest hread ih =>
    obtain ⟨others, hothers, rfl⟩ := Option.map_eq_some_iff.1 h
    exact List.forall_mem_cons.2 ⟨inRange_of_readToken? hread, ih hothers⟩
  | case3 => cases h

/-! ## The reader -/

def Container.InRange : Container → Prop
  | .array items => ∀ item ∈ items, item.InRange
  | .object members _ => ∀ member ∈ members, member.2.InRange

namespace ReaderState

/-- All values that have been read so far are in range. -/
structure InRange (s : ReaderState) : Prop where
  containers : ∀ container ∈ s.containers, container.InRange
  result : ∀ j, s.expected = .nothing j → j.InRange

variable {j : Json} {container : Container} {containers outer : List Container} {token : Token}
  {s s' : ReaderState}

theorem inRange_start : ({} : ReaderState).InRange where
  containers := List.forall_mem_nil _
  result := nofun

theorem inRange_deliver (hj : j.InRange) (h : ∀ container ∈ containers, container.InRange) :
    (deliver j containers).InRange := by
  cases containers with
  | nil => exact ⟨List.forall_mem_nil _, by rintro _ ⟨⟩; exact hj⟩
  | cons container outer =>
    obtain ⟨hcontainer, houter⟩ := List.forall_mem_cons.1 h
    cases container with
    | array items =>
      have hitems : (Container.array (j :: items)).InRange := List.forall_mem_cons.2 ⟨hj, hcontainer⟩
      exact ⟨List.forall_mem_cons.2 ⟨hitems, houter⟩, nofun⟩
    | object members key =>
      have hmembers : (Container.object ((key, j) :: members) none).InRange :=
        List.forall_mem_cons.2 ⟨hj, hcontainer⟩
      exact ⟨List.forall_mem_cons.2 ⟨hmembers, houter⟩, nofun⟩

theorem inRange_complete (limit depth : Nat) (h : container.InRange) :
    (complete limit depth container).InRange := by
  cases container with
  | array items =>
    unfold complete
    dsimp only
    split
    · exact .arr fun item hitem => h item (List.mem_reverse.1 hitem)
    · exact .void
  | object members key =>
    unfold complete
    dsimp only
    split
    · next members' hmembers =>
      split
      · refine .obj fun member hmember => ?_
        rw [← filterMap_eq_of_mapM hmembers] at hmember
        obtain ⟨read, hread, heq⟩ := List.mem_filterMap.1 hmember
        obtain ⟨key, -, rfl⟩ := Option.map_eq_some_iff.1 heq
        exact h read (List.mem_reverse.1 hread)
      · exact .void
    · exact .void

theorem inRange_close (limit : Nat) (h : ∀ c ∈ container :: outer, c.InRange) :
    (close limit container outer).InRange := by
  obtain ⟨hcontainer, houter⟩ := List.forall_mem_cons.1 h
  exact inRange_deliver (inRange_complete limit outer.length hcontainer) houter

theorem inRange_of_takeValue (htoken : token.InRange) (h : ∀ c ∈ containers, c.InRange)
    (hs : takeValue containers token = some s) : s.InRange := by
  cases token with
  | value j => cases hs; exact inRange_deliver (htoken j rfl) h
  | text text =>
    cases text with
    | none => cases hs; exact inRange_deliver .void h
    | some text => cases hs; exact inRange_deliver (.str text) h
  | openArray =>
    cases hs
    have hnew : (Container.array []).InRange := List.forall_mem_nil _
    exact ⟨List.forall_mem_cons.2 ⟨hnew, h⟩, nofun⟩
  | openObject =>
    cases hs
    have hnew : (Container.object [] none).InRange := List.forall_mem_nil _
    exact ⟨List.forall_mem_cons.2 ⟨hnew, h⟩, nofun⟩
  | closeArray | closeObject | comma | colon => cases hs

theorem inRange_of_takeKey (h : ∀ c ∈ containers, c.InRange)
    (hs : takeKey containers token = some s) : s.InRange := by
  unfold takeKey at hs
  split at hs
  · cases hs
    obtain ⟨hobject, houter⟩ := List.forall_mem_cons.1 h
    exact ⟨List.forall_mem_cons.2 ⟨hobject, houter⟩, nofun⟩
  · cases hs

theorem inRange_of_takeSeparator {limit : Nat} (h : ∀ c ∈ containers, c.InRange)
    (hs : takeSeparator limit containers token = some s) : s.InRange := by
  unfold takeSeparator at hs
  split at hs
  case h_1 | h_3 => cases hs; exact inRange_close limit h
  case h_2 | h_4 => cases hs; exact ⟨h, nofun⟩
  case h_5 => cases hs

theorem InRange.step {limit : Nat} (h : s.InRange) (htoken : token.InRange)
    (hs : step limit s token = some s') : s'.InRange := by
  unfold ReaderState.step at hs
  split at hs
  case h_1 | h_2 | h_8 => exact inRange_of_takeSeparator h.containers hs
  case h_3 | h_4 => exact inRange_of_takeValue htoken h.containers hs
  case h_5 | h_6 => exact inRange_of_takeKey h.containers hs
  case h_7 => cases hs; exact ⟨h.containers, nofun⟩
  case h_9 => cases hs

theorem InRange.foldlM {limit : Nat} {tokens : List Token} (h : s.InRange)
    (htokens : ∀ token ∈ tokens, token.InRange)
    (hs : tokens.foldlM (ReaderState.step limit) s = some s') : s'.InRange := by
  induction tokens generalizing s with
  | nil => cases hs; exact h
  | cons token rest ih =>
    obtain ⟨htoken, hrest⟩ := List.forall_mem_cons.1 htokens
    rw [List.foldlM_cons] at hs
    obtain ⟨next, hnext, hs⟩ := Option.bind_eq_some_iff.1 hs
    exact ih (h.step htoken hnext) hrest hs

end ReaderState

/-- Whatever is read from a JSON text is in range. -/
theorem inRange_of_ofString? {text : String} {limit : Nat} {j : Json}
    (h : ofString? text limit = some j) : j.InRange := by
  obtain ⟨tokens, htokens, h⟩ := Option.bind_eq_some_iff.1 h
  obtain ⟨final, hfinal, h⟩ := Option.bind_eq_some_iff.1 h
  have hinRange := ReaderState.inRange_start.foldlM (inRange_of_mem_tokens? htokens) hfinal
  unfold ReaderState.result? at h
  split at h
  · next hexpected => cases h; exact hinRange.result j hexpected
  · cases h

theorem inRange_ofStringOrNull (text : String) : (ofStringOrNull text).InRange := by
  unfold ofStringOrNull
  split
  · next hread =>
    split
    · exact inRange_of_ofString? hread
    · exact .null
  · exact .null

end Blockwise.Json
