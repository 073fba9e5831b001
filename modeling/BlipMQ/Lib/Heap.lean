import Mathlib.Data.List.Sort
import Mathlib.Order.MinMax

/-!
# Draining a heap

A binary heap is the list of what is in it; `peek` is the least item. The
loop that pops items while the least one is due runs its body over the due
items in order and leaves the others where they are.
-/

namespace BlipMQ.Heap

variable {α σ : Type*} [LinearOrder α] {due : α → Bool} {body : σ → α → σ}

/-- Pops the least item and runs the body as long as the least item is due, at
most `fuel` times. -/
def drainN (due : α → Bool) (body : σ → α → σ) : Nat → σ → List α → σ × List α
  | 0, s, heap => (s, heap)
  | fuel + 1, s, heap =>
    match heap.min? with
    | none => (s, heap)
    | some m => if due m then drainN due body fuel (body s m) (heap.erase m) else (s, heap)

/-- The whole loop; each turn pops an item. -/
def drain (due : α → Bool) (body : σ → α → σ) (s : σ) (heap : List α) : σ × List α :=
  drainN due body heap.length s heap

/-- The due items in the order in which they are popped. -/
def dueItems (due : α → Bool) (heap : List α) : List α :=
  (heap.filter due).insertionSort (· ≤ ·)

theorem mem_dueItems {heap : List α} {x : α} : x ∈ dueItems due heap ↔ x ∈ heap ∧ due x = true := by
  rw [dueItems, List.mem_insertionSort, List.mem_filter]

theorem dueItems_sorted (due : α → Bool) (heap : List α) :
    (dueItems due heap).Pairwise (· ≤ ·) :=
  List.pairwise_insertionSort (· ≤ ·) _

theorem min?_spec {heap : List α} {m : α} (h : heap.min? = some m) :
    m ∈ heap ∧ ∀ x ∈ heap, m ≤ x := by
  have : Std.LawfulOrderMin α :=
    { le_min_iff := fun _ _ _ => le_min_iff, min_eq_or := fun _ _ => min_choice _ _ }
  exact List.min?_eq_some_iff.mp h

/-- The least item comes first. -/
theorem dueItems_cons {heap : List α} {m : α} (hmin : heap.min? = some m) (hm : due m = true) :
    dueItems due heap = m :: dueItems due (heap.erase m) := by
  obtain ⟨hmem, hle⟩ := min?_spec hmin
  have hperm : (heap.filter due).Perm (m :: (heap.erase m).filter due) := by
    have h := (List.perm_cons_erase hmem).filter due
    rwa [List.filter_cons_of_pos hm] at h
  have hsorted : (m :: dueItems due (heap.erase m)).Pairwise (· ≤ ·) := by
    refine List.pairwise_cons.mpr ⟨fun x hx => ?_, dueItems_sorted ..⟩
    exact hle x (List.mem_of_mem_erase (mem_dueItems.mp hx).1)
  refine List.Perm.eq_of_pairwise' (dueItems_sorted ..) hsorted ?_
  refine (List.perm_insertionSort ..).trans (hperm.trans ?_)
  exact (List.perm_insertionSort ..).symm.cons m

/-- **The loop is a fold over the due items in order.** -/
theorem drain_eq (hdue : ∀ a b, a ≤ b → due b = true → due a = true) (s : σ) (heap : List α) :
    drain due body s heap = ((dueItems due heap).foldl body s, heap.filter (!due ·)) := by
  have hgen : ∀ n (s : σ) (heap : List α), heap.length = n →
      drainN due body n s heap = ((dueItems due heap).foldl body s, heap.filter (!due ·)) := by
    intro n
    induction n with
    | zero =>
      intro s heap hlen
      rw [List.eq_nil_of_length_eq_zero hlen]
      rfl
    | succ n ih =>
      intro s heap hlen
      cases hmin : heap.min? with
      | none =>
        rw [List.min?_eq_none_iff] at hmin
        rw [hmin] at hlen
        cases hlen
      | some m =>
        obtain ⟨hmem, hle⟩ := min?_spec hmin
        rw [drainN, hmin]
        dsimp only
        by_cases hm : due m = true
        · have hrest : (heap.erase m).filter (!due ·) = heap.filter (!due ·) := by
            rw [← List.erase_filter, List.erase_of_not_mem]
            simp [hm]
          rw [if_pos hm, ih _ _ (by rw [List.length_erase_of_mem hmem, hlen]; rfl),
            dueItems_cons hmin hm, List.foldl_cons, hrest]
        · -- nothing is due if the least item is not
          have hnone : ∀ x ∈ heap, due x = false := by
            intro x hx
            by_contra hx'
            exact hm (hdue m x (hle x hx) (by simpa using hx'))
          have hitems : heap.filter due = [] :=
            List.filter_eq_nil_iff.mpr fun x hx => by simp [hnone x hx]
          have hkeep : heap.filter (!due ·) = heap :=
            List.filter_eq_self.mpr fun x hx => by simp [hnone x hx]
          rw [if_neg hm, dueItems, hitems, hkeep]
          rfl
  exact hgen heap.length s heap rfl

theorem nodup_map_dueItems {β : Type*} {f : α → β} {heap : List α} (h : (heap.map f).Nodup) :
    ((dueItems due heap).map f).Nodup :=
  ((List.perm_insertionSort (· ≤ ·) (heap.filter due)).map f).nodup_iff.mpr
    (h.sublist (List.filter_sublist.map f))

/-! ## Sorting by a key -/

section SortBy

variable {β : Type*} {key : β → α}

/-- A sorted list is the sorted list of what is in it, if no two members have one
key. -/
theorem eq_insertionSort_key {l l' : List β} (hperm : l.Perm l')
    (hsorted : l.Pairwise fun a b => key a ≤ key b)
    (hinj : ∀ a ∈ l, ∀ b ∈ l, key a = key b → a = b) :
    l = l'.insertionSort fun a b => key a ≤ key b := by
  have : Std.Total fun a b : β => key a ≤ key b := ⟨fun a b => le_total (key a) (key b)⟩
  have : IsTrans β fun a b => key a ≤ key b := ⟨fun _ _ _ => le_trans⟩
  have hperm' := hperm.trans (List.perm_insertionSort (fun a b => key a ≤ key b) l').symm
  refine List.Perm.eq_of_pairwise ?_ hsorted (List.pairwise_insertionSort _ _) hperm'
  intro a b ha hb hab hba
  exact hinj a ha b (hperm'.mem_iff.mpr hb) (le_antisymm hab hba)

/-- Items in order give what they stand for in the order of the keys. -/
theorem pairwise_filterMap_key {items : List α} {f : α → Option β} (h : items.Pairwise (· ≤ ·))
    (hkey : ∀ x b, f x = some b → key b = x) :
    (items.filterMap f).Pairwise fun a b => key a ≤ key b := by
  refine List.Pairwise.filterMap f ?_ h
  intro x y hxy a ha b hb
  rwa [hkey x a ha, hkey y b hb]

end SortBy

end BlipMQ.Heap
