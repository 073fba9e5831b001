import Mathlib.Data.Int.CardIntervalMod
import Mathlib.Data.List.Basic

/-!
# Taking turns

A counter that goes up by one, read modulo the number of members, picks the
members one after the other. Over any stretch of the counter no member is
picked more than once more often than another.
-/

namespace BlipMQ

section Turns

variable {α : Type*}

/-- What the counter picks in `k` turns from `start` on. -/
def turns (members : List α) (start k : Nat) : List (Option α) :=
  (List.range k).map fun i => members[(start + i) % members.length]?

theorem turns_succ (members : List α) (start k : Nat) :
    turns members start (k + 1) =
      members[start % members.length]? :: turns members (start + 1) k := by
  simp only [turns, List.range_succ_eq_map, List.map_cons, List.map_map, Nat.add_zero]
  congr 1
  refine List.map_congr_left fun i _ => ?_
  rw [Function.comp_apply, Nat.succ_eq_one_add, ← Nat.add_assoc]

/-- Counting from `start` reaches residue `j` when counting from zero reaches some residue. -/
theorem exists_residue {m j : Nat} (hj : j < m) (start : Nat) :
    ∃ v, ∀ i, (start + i) % m = j ↔ i ≡ v [MOD m] := by
  refine ⟨j + (m - start % m), fun i => ?_⟩
  have hlt : start % m < m := Nat.mod_lt _ (Nat.zero_lt_of_lt hj)
  have hstart : start + (m - start % m) ≡ 0 [MOD m] := by
    have hsum : start + (m - start % m) = m * (start / m) + m := by
      have := Nat.div_add_mod start m
      omega
    rw [hsum]
    simp [Nat.ModEq]
  have hshift : start + (j + (m - start % m)) ≡ j [MOD m] := by
    have := hstart.add_left j
    rwa [Nat.add_zero, Nat.add_left_comm] at this
  constructor
  · intro h
    refine Nat.ModEq.add_left_cancel' start (Nat.ModEq.trans ?_ hshift.symm)
    rw [Nat.ModEq, h, Nat.mod_eq_of_lt hj]
  · intro h
    have := (h.add_left start).trans hshift
    rwa [Nat.ModEq, Nat.mod_eq_of_lt hj] at this

variable [DecidableEq α] {members : List α}

/-- Every member gets as many turns as there are rounds, and maybe one more of the
round that was begun. -/
theorem count_turns (hnd : members.Nodup) {x : α} (hx : x ∈ members) (start k : Nat) :
    ∃ v, (turns members start k).count (some x) =
      k / members.length + if v % members.length < k % members.length then 1 else 0 := by
  obtain ⟨j, hj, rfl⟩ := List.mem_iff_getElem.mp hx
  obtain ⟨v, hv⟩ := exists_residue hj start
  have hpos : 0 < members.length := Nat.zero_lt_of_lt hj
  refine ⟨v, ?_⟩
  rw [← Nat.count_modEq_card k hpos v, turns, List.count_eq_countP, List.countP_map, Nat.count]
  refine List.countP_congr fun i _ => ?_
  have hlt : (start + i) % members.length < members.length := Nat.mod_lt _ hpos
  rw [Function.comp_apply, beq_iff_eq, decide_eq_true_eq, ← hv i,
    List.getElem?_eq_getElem hlt, Option.some.injEq, hnd.getElem_inj_iff]

/-- **Turns are shared evenly**: every member gets the quotient, rounded down or up. -/
theorem count_turns_floor_or_ceil (hnd : members.Nodup) {x : α} (hx : x ∈ members)
    (start k : Nat) :
    (turns members start k).count (some x) = k / members.length ∨
      (turns members start k).count (some x) = (k + members.length - 1) / members.length := by
  obtain ⟨v, hv⟩ := count_turns hnd hx start k
  have hpos : 0 < members.length := List.length_pos_of_mem hx
  by_cases hlast : v % members.length < k % members.length
  · right
    rw [if_pos hlast] at hv
    rw [hv]
    have hrest : 1 ≤ k % members.length := by omega
    have hle : k % members.length < members.length := Nat.mod_lt _ hpos
    have hsum : k + members.length - 1 =
        k % members.length - 1 + members.length * (k / members.length + 1) := by
      have := Nat.div_add_mod k members.length
      rw [Nat.mul_add, Nat.mul_one]
      omega
    have hsmall : (k % members.length - 1) / members.length = 0 := Nat.div_eq_of_lt (by omega)
    rw [hsum, Nat.add_mul_div_left _ _ hpos, hsmall, Nat.zero_add]
  · left
    rw [if_neg hlast] at hv
    exact hv

end Turns

end BlipMQ
