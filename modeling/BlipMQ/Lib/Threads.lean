import BlipMQ.Lib.Run
import Mathlib.Algebra.GroupWithZero.Nat
import Mathlib.Algebra.Order.BigOperators.Group.List
import Mathlib.Algebra.Order.Group.Nat

/-!
# Threads over shared state

Calls run side by side. A state holds the list of the calls under way; a step
replaces one of them and may change what they share. What all calls together
claim is the sum of a weight over the list, and a step moves such a sum by
the difference of two weights.
-/

namespace BlipMQ

section Threads

variable {τ : Type*} {threads : List τ} {i : Nat} {c c' : τ}

/-- The sum of a weight over the threads. -/
def total (w : τ → Nat) (threads : List τ) : Nat := (threads.map w).sum

@[simp] theorem total_nil (w : τ → Nat) : total w [] = 0 := rfl

@[simp] theorem total_cons (w : τ → Nat) (c : τ) (threads : List τ) :
    total w (c :: threads) = w c + total w threads := rfl

theorem total_append (w : τ → Nat) (threads more : List τ) :
    total w (threads ++ more) = total w threads + total w more := by
  simp [total]

theorem total_concat (w : τ → Nat) (threads : List τ) (c : τ) :
    total w (threads ++ [c]) = total w threads + w c :=
  total_append w threads [c]

/-- One thread moves on. -/
theorem total_set (w : τ → Nat) (h : threads[i]? = some c) (c' : τ) :
    total w (threads.set i c') + w c = total w threads + w c' := by
  induction threads generalizing i with
  | nil => simp at h
  | cons d threads ih =>
    cases i with
    | zero =>
      simp only [List.getElem?_cons_zero, Option.some.injEq] at h
      subst h
      simp only [List.set_cons_zero, total_cons]
      omega
    | succ i =>
      rw [List.getElem?_cons_succ] at h
      have hrest := ih h
      simp only [List.set_cons_succ, total_cons]
      omega

theorem le_total (w : τ → Nat) (h : threads[i]? = some c) : w c ≤ total w threads :=
  List.le_sum_of_mem (List.mem_map_of_mem (List.mem_of_getElem? h))

theorem total_le_total {w w' : τ → Nat} (h : ∀ c, w c ≤ w' c) (threads : List τ) :
    total w threads ≤ total w' threads := by
  induction threads with
  | nil => exact Nat.le_refl _
  | cons c threads ih =>
    have hc := h c
    simp only [total_cons]
    omega

theorem total_eq_zero {w : τ → Nat} (h : ∀ c ∈ threads, w c = 0) : total w threads = 0 := by
  induction threads with
  | nil => rfl
  | cons c threads ih =>
    rw [total_cons, h c List.mem_cons_self, ih fun d hd => h d (List.mem_cons_of_mem _ hd)]

/-! ## What only one can have -/

/-- Every `x` is at most once in a store or with a thread, those of `out` not at all. -/
structure Once {α : Type*} (n : α → Nat) (w : α → τ → Nat) (out : α → Prop)
    (threads : List τ) : Prop where
  le_one : ∀ x, n x + total (w x) threads ≤ 1
  eq_zero : ∀ x, out x → n x + total (w x) threads = 0

section Once

variable {α : Type*} {n n' : α → Nat} {w : α → τ → Nat} {out out' : α → Prop} {x : α}

/-- A thread moves on: it passes on what it or the store had, and takes up what was
out and is no longer. -/
theorem Once.set (h : Once n w out threads) (hc : threads[i]? = some c)
    (hout : ∀ x, out' x → out x)
    (hle : ∀ x, n' x + w x c' ≤ n x + w x c ∨
      out x ∧ ¬ out' x ∧ n' x + w x c' ≤ n x + w x c + 1) :
    Once n' w out' (threads.set i c') := by
  refine ⟨fun x => ?_, fun x hx => ?_⟩
  · have hset := total_set (w x) hc c'
    have hone := h.le_one x
    rcases hle x with hkeep | ⟨hfree, -, hnew⟩
    · omega
    · have hzero := h.eq_zero x hfree
      omega
  · have hset := total_set (w x) hc c'
    have hzero := h.eq_zero x (hout x hx)
    rcases hle x with hkeep | ⟨-, hnot, -⟩
    · omega
    · exact absurd hx hnot

theorem Once.concat (h : Once n w out threads) (hc : ∀ x, w x c = 0) :
    Once n w out (threads ++ [c]) := by
  refine ⟨fun x => ?_, fun x hx => ?_⟩
  · rw [total_concat, hc]
    exact h.le_one x
  · rw [total_concat, hc]
    exact h.eq_zero x hx

/-- What a thread has is in no store, and no other thread has it. -/
theorem Once.own (h : Once n w out threads) (hc : threads[i]? = some c) (hx : 0 < w x c) :
    n x = 0 ∧ total (w x) threads = 1 ∧ ¬ out x := by
  have hone := h.le_one x
  have hle := le_total (w x) hc
  refine ⟨by omega, by omega, fun hout => ?_⟩
  have hzero := h.eq_zero x hout
  omega

end Once

end Threads

end BlipMQ
