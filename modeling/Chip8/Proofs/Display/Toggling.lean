import Chip8.Display.Basic
import Mathlib.Tactic.Common

/-!
# Toggling cells one after the other

A drawing is a list of toggles that happen in order.  Which cells end lit depends on how often each
of them is listed and on nothing else; whether a lit cell was turned off depends on the order too,
once a cell is listed twice.  So the toggles that turn a cell off are counted as they happen.

* `turnedOff cells ps`: how many of the toggles turn a lit cell off.
* `count_toggleAll`: **every toggle lights one more cell, except that one that turns a cell off
  makes it one less.**
* `toggleAll_snd`: a collision is a toggle that turns a cell off.
* `turnedOff_of_nodup`: where no cell is listed twice, those are the cells that were lit before.
* `toggleAll_congr`: the cells depend on nothing but how often each is listed, odd or even.
-/

namespace Chip8

namespace Display

/-- How many of the toggles, made one after the other, turn a lit cell off. -/
def turnedOff (cells : Vector Bool 2048) : List Cell → Nat
  | [] => 0
  | p :: ps => (toggleAll cells false [p]).2.toNat + turnedOff (toggleAll cells false [p]).1 ps

variable {cells : Vector Bool 2048} {p q : Cell} {ps qs : List Cell}

/-! ### One toggle -/

theorem toggleAll_singleton_snd (cells : Vector Bool 2048) (p : Cell) :
    (toggleAll cells false [p]).2 = cells.get p := rfl

theorem get_toggleAll_singleton (h : q ≠ p) :
    (toggleAll cells false [p]).1.get q = cells.get q :=
  Vector.getElem_set_ne p.isLt q.isLt fun e => h (Fin.ext e.symm)

theorem count_toggleAll_singleton (cells : Vector Bool 2048) (p : Cell) :
    (toggleAll cells false [p]).1.count true + 2 * (toggleAll cells false [p]).2.toNat =
      cells.count true + 1 := by
  have hset : (toggleAll cells false [p]).1.count true =
      (cells.count true - if cells[p] == true then 1 else 0) +
        if (!cells[p]) == true then 1 else 0 :=
    Vector.count_set p.isLt
  rw [hset, show (toggleAll cells false [p]).2 = cells[p] from rfl]
  cases hlit : cells[p] with
  | false => rfl
  | true =>
    have hpos : 0 < cells.count true := Vector.count_pos_iff.mpr (hlit ▸ Vector.getElem_mem p.isLt)
    show cells.count true - 1 + 0 + 2 = cells.count true + 1
    omega

/-- The other toggles start from where the first one ends, and only their collisions add up. -/
theorem toggleAll_cons (cells : Vector Bool 2048) (hit : Bool) (p : Cell) (ps : List Cell) :
    toggleAll cells hit (p :: ps) =
      toggleAll (toggleAll cells false [p]).1 (hit || (toggleAll cells false [p]).2) ps := rfl

/-! ### What is counted -/

/-- **Every toggle lights one more cell, except that one that turns a cell off makes it one
less.** -/
theorem count_toggleAll (cells : Vector Bool 2048) (hit : Bool) (ps : List Cell) :
    (toggleAll cells hit ps).1.count true + 2 * turnedOff cells ps =
      cells.count true + ps.length := by
  induction ps generalizing cells hit with
  | nil => rfl
  | cons p ps ih =>
    have hfirst := count_toggleAll_singleton cells p
    have hrest := ih (toggleAll cells false [p]).1 (hit || (toggleAll cells false [p]).2)
    rw [toggleAll_cons, turnedOff, List.length_cons]
    omega

/-- A collision is a toggle that turns a cell off. -/
theorem toggleAll_snd (cells : Vector Bool 2048) (hit : Bool) (ps : List Cell) :
    (toggleAll cells hit ps).2 = (hit || decide (0 < turnedOff cells ps)) := by
  induction ps generalizing cells hit with
  | nil => simp [toggleAll, turnedOff]
  | cons p ps ih =>
    rw [toggleAll_cons, turnedOff, ih, Bool.or_assoc]
    cases (toggleAll cells false [p]).2 with
    | false => simp
    | true =>
      have hpos : 0 < true.toNat + turnedOff (toggleAll cells false [p]).1 ps := by
        rw [Bool.toNat_true]
        omega
      simp only [hpos, decide_true, Bool.true_or]

/-- **Where no cell is listed twice, the cells that are turned off are those that were lit.** -/
theorem turnedOff_of_nodup (h : ps.Nodup) : turnedOff cells ps = ps.countP cells.get := by
  induction ps generalizing cells with
  | nil => rfl
  | cons p ps ih =>
    obtain ⟨hp, hps⟩ := List.nodup_cons.mp h
    -- the other cells are none of them `p`, so they are as they were before the first toggle
    have hrest : ps.countP (toggleAll cells false [p]).1.get = ps.countP cells.get := by
      refine List.countP_congr fun q hq => ?_
      have hne : q ≠ p := fun e => hp (e ▸ hq)
      rw [get_toggleAll_singleton hne]
    rw [turnedOff, ih hps, hrest, toggleAll_singleton_snd, List.countP_cons, Nat.add_comm]
    cases cells.get p <;> rfl

theorem collides_iff_of_nodup (h : ps.Nodup) :
    (toggleAll cells false ps).2 = true ↔ ∃ p ∈ ps, cells.get p = true := by
  rw [toggleAll_snd, turnedOff_of_nodup h, Bool.false_or, decide_eq_true_iff, List.countP_pos_iff]

/-! ### The order does not matter for the cells -/

theorem toggleAll_congr (h : ∀ q, ps.count q % 2 = qs.count q % 2) (hit hit' : Bool) :
    (toggleAll cells hit ps).1 = (toggleAll cells hit' qs).1 := by
  refine Vector.ext fun i hi => ?_
  have hps := getElem_toggleAll cells hit ps ⟨i, hi⟩
  have hqs := getElem_toggleAll cells hit' qs ⟨i, hi⟩
  rw [h] at hps
  exact hps.trans hqs.symm

theorem toggleAll_append (cells : Vector Bool 2048) (hit : Bool) (ps qs : List Cell) :
    toggleAll cells hit (ps ++ qs) =
      toggleAll (toggleAll cells hit ps).1 (toggleAll cells hit ps).2 qs := by
  induction ps generalizing cells hit with
  | nil => rfl
  | cons p ps ih => rw [List.cons_append, toggleAll, toggleAll, ih]

end Display

end Chip8
