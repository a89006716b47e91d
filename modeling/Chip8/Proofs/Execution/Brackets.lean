import Mathlib.Tactic.Common

/-!
# Calls and returns as brackets

A run leaves a word of brackets behind: its calls, each by the address it was made at, and its
returns, the oldest first.  Which calls are still open is a matter of counting.  A call has been
answered if some stretch right after it has more returns than calls; otherwise it is open.  No stack
is needed to say so.

* `Answered`, `openCalls`: the calls that no return has answered, the oldest first.
* `openCalls_append_call`: **a new call is open**, and leaves the others as they are.
* `openCalls_append_ret`: **a return answers the latest call that is open.**
-/

namespace Chip8

/-- A call, by the address of its word, or a return. -/
inductive CallBracket
  | call (address : Nat)
  | ret
  deriving DecidableEq, Repr

namespace CallBracket

/-- Calls less returns. -/
def balance : List CallBracket → Int
  | [] => 0
  | call _ :: later => balance later + 1
  | ret :: later => balance later - 1

/-- What comes after a call has answered it: some stretch right after it has more returns than
calls. -/
def Answered (later : List CallBracket) : Prop := ∃ stretch, stretch <+: later ∧ balance stretch < 0

/-- The returns that find no call before them. -/
def surplus : List CallBracket → Nat
  | [] => 0
  | call _ :: later => surplus later - 1
  | ret :: later => surplus later + 1

/-- Counting finds as many returns too many as there are without a call. -/
theorem exists_balance_lt_iff (later : List CallBracket) (k : Nat) :
    (∃ stretch, stretch <+: later ∧ balance stretch + k < 0) ↔ k < surplus later := by
  -- behind a call the stretch has to fall one lower, behind a return one less
  induction later generalizing k with
  | nil =>
    constructor
    · rintro ⟨stretch, hprefix, hneg⟩
      rw [List.prefix_nil.mp hprefix, balance] at hneg
      omega
    · intro h
      cases h
  | cons bracket later ih =>
    cases bracket with
    | call address =>
      have hlater := ih (k + 1)
      constructor
      · rintro ⟨stretch, hprefix, hneg⟩
        rcases List.prefix_cons_iff.mp hprefix with rfl | ⟨rest, rfl, hrest⟩
        · rw [balance] at hneg
          omega
        · rw [balance] at hneg
          have := hlater.mp ⟨rest, hrest, by push_cast; omega⟩
          rw [surplus]
          omega
      · intro h
        rw [surplus] at h
        obtain ⟨rest, hrest, hneg⟩ := hlater.mpr (by omega)
        refine ⟨call address :: rest, List.prefix_cons_iff.mpr (.inr ⟨rest, rfl, hrest⟩), ?_⟩
        rw [balance]
        push_cast at hneg
        omega
    | ret =>
      constructor
      · rintro ⟨stretch, hprefix, hneg⟩
        rcases List.prefix_cons_iff.mp hprefix with rfl | ⟨rest, rfl, hrest⟩
        · rw [balance] at hneg
          omega
        · rw [balance] at hneg
          rw [surplus]
          cases k with
          | zero => omega
          | succ k =>
            have := (ih k).mp ⟨rest, hrest, by push_cast at hneg; omega⟩
            omega
      · intro h
        rw [surplus] at h
        cases k with
        | zero =>
          exact ⟨[ret], List.prefix_cons_iff.mpr (.inr ⟨[], rfl, List.nil_prefix⟩), by decide⟩
        | succ k =>
          obtain ⟨rest, hrest, hneg⟩ := (ih k).mpr (by omega)
          refine ⟨ret :: rest, List.prefix_cons_iff.mpr (.inr ⟨rest, rfl, hrest⟩), ?_⟩
          rw [balance]
          push_cast
          omega

theorem answered_iff (later : List CallBracket) : Answered later ↔ 0 < surplus later := by
  rw [← exists_balance_lt_iff, Answered]
  simp only [Int.natCast_zero, Int.add_zero]

instance : DecidablePred Answered := fun later => decidable_of_iff _ (answered_iff later).symm

/-- The addresses of the calls that have not been answered, the oldest first. -/
def openCalls : List CallBracket → List Nat
  | [] => []
  | call address :: later =>
    if Answered later then openCalls later else address :: openCalls later
  | ret :: later => openCalls later

theorem openCalls_call_of_pos {later : List CallBracket} (h : 0 < surplus later) (address : Nat) :
    openCalls (call address :: later) = openCalls later := by
  rw [openCalls, if_pos ((answered_iff later).mpr h)]

theorem openCalls_call_of_zero {later : List CallBracket} (h : surplus later = 0) (address : Nat) :
    openCalls (call address :: later) = address :: openCalls later := by
  rw [openCalls, if_neg (by rw [answered_iff]; omega)]

/-! ### One more bracket -/

theorem surplus_append_call (history : List CallBracket) (address : Nat) :
    surplus (history ++ [call address]) = surplus history := by
  induction history with
  | nil => rfl
  | cons bracket history ih =>
    cases bracket with
    | call b => rw [List.cons_append, surplus, surplus, ih]
    | ret => rw [List.cons_append, surplus, surplus, ih]

/-- **A new call is open**, and the calls before it are open or answered as they were. -/
theorem openCalls_append_call (history : List CallBracket) (address : Nat) :
    openCalls (history ++ [call address]) = openCalls history ++ [address] := by
  induction history with
  | nil => rfl
  | cons bracket history ih =>
    have hsurplus := surplus_append_call history address
    cases bracket with
    | call b =>
      rw [List.cons_append]
      rcases Nat.eq_zero_or_pos (surplus history) with hzero | hpos
      · rw [openCalls_call_of_zero hzero, openCalls_call_of_zero (hsurplus.trans hzero), ih]
        rfl
      · rw [openCalls_call_of_pos hpos, openCalls_call_of_pos (by omega), ih]
    | ret => rw [List.cons_append, openCalls, openCalls, ih]

theorem surplus_append_ret (history : List CallBracket) :
    surplus (history ++ [ret]) =
      if openCalls history = [] then surplus history + 1 else surplus history := by
  induction history with
  | nil => rfl
  | cons bracket history ih =>
    cases bracket with
    | call b =>
      rw [List.cons_append, surplus, surplus, ih]
      rcases Nat.eq_zero_or_pos (surplus history) with hzero | hpos
      · rw [openCalls_call_of_zero hzero, if_neg (List.cons_ne_nil b _)]
        split
        · omega
        · omega
      · rw [openCalls_call_of_pos hpos]
        split
        · omega
        · rfl
    | ret =>
      rw [List.cons_append, surplus, surplus, ih, openCalls]
      split
      · rfl
      · rfl

/-- **A return answers the latest call that is open.** -/
theorem openCalls_append_ret (history : List CallBracket) :
    openCalls (history ++ [ret]) = (openCalls history).dropLast := by
  induction history with
  | nil => rfl
  | cons bracket history ih =>
    have hsurplus := surplus_append_ret history
    cases bracket with
    | call b =>
      rw [List.cons_append]
      by_cases hnil : openCalls history = []
      · rw [if_pos hnil] at hsurplus
        rw [openCalls_call_of_pos (by omega), ih, hnil]
        rcases Nat.eq_zero_or_pos (surplus history) with hzero | hpos
        · rw [openCalls_call_of_zero hzero, hnil]
          rfl
        · rw [openCalls_call_of_pos hpos, hnil]
      · rw [if_neg hnil] at hsurplus
        rcases Nat.eq_zero_or_pos (surplus history) with hzero | hpos
        · rw [openCalls_call_of_zero hzero, openCalls_call_of_zero (hsurplus.trans hzero), ih,
            List.dropLast_cons_of_ne_nil hnil]
        · rw [openCalls_call_of_pos hpos, openCalls_call_of_pos (by omega), ih]
    | ret => rw [List.cons_append, openCalls, openCalls, ih]

/-- Of two calls, one inside the other, the first return answers the inner one. -/
example : openCalls [.call 0x200, .call 0x300, .ret, .call 0x400] = [0x200, 0x400] := by decide

end CallBracket

end Chip8
