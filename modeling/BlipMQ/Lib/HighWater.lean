import Mathlib.Data.Set.Insert
import Mathlib.Order.Lattice
import BlipMQ.Lib.Run

/-!
# High-water marks

Items are routed and settled one by one, in any order, and a mark keeps the
highest item that was settled. Read as "everything routed up to here is
settled", the mark is right just as long as every step keeps to the order of
the items.
-/

namespace BlipMQ

@[ext]
structure HighWater (α : Type*) where
  routed : Set α
  settled : Set α
  mark : Option α

namespace HighWater

variable {α : Type*} [LinearOrder α]

/-- The mark may also be raised by something that settles none of the items. -/
inductive Event (α : Type*) where
  | route (i : α)
  | settle (i : α)
  | raise (i : α)

/-- The mark, raised to an item. -/
def raised : Option α → α → Option α
  | none, i => some i
  | some c, i => some (max c i)

def step (s : HighWater α) : Event α → HighWater α
  | .route i => { s with routed := insert i s.routed }
  | .settle i => { s with settled := insert i s.settled, mark := raised s.mark i }
  | .raise i => { s with mark := raised s.mark i }

/-- What was routed and is not beyond the mark is settled. -/
def Covered (s : HighWater α) : Prop := ∀ i ∈ s.routed, ∀ c ∈ s.mark, i ≤ c → i ∈ s.settled

/-- The step keeps to the order of the items: what is routed is beyond the mark,
and the mark is raised to an item when everything up to it is settled. -/
def InOrder (s : HighWater α) : Event α → Prop
  | .route i => ∀ c ∈ s.mark, i ≤ c → i ∈ s.settled
  | .settle i => ∀ j ∈ s.routed, j ≤ i → j = i ∨ j ∈ s.settled
  | .raise i => ∀ j ∈ s.routed, j ≤ i → j ∈ s.settled

variable {s : HighWater α}

theorem forall_le_raised {mark : Option α} {i j : α} {P : Prop} :
    (∀ c ∈ raised mark i, j ≤ c → P) ↔ (∀ c ∈ mark, j ≤ c → P) ∧ (j ≤ i → P) := by
  cases mark with
  | none => simp [raised]
  | some c => simp [raised, or_imp]

/-- **A step keeps the mark right just if it keeps to the order.** -/
theorem Covered.step_iff (h : s.Covered) (e : Event α) : (s.step e).Covered ↔ s.InOrder e := by
  cases e with
  | route i =>
    constructor
    · exact fun hstep => hstep i (Set.mem_insert i s.routed)
    · intro horder j hj
      rcases Set.mem_insert_iff.mp hj with rfl | hj
      · exact horder
      · exact h j hj
  | settle i =>
    constructor
    · intro hstep j hj hle
      exact Set.mem_insert_iff.mp ((forall_le_raised.mp (hstep j hj)).2 hle)
    · intro horder j hj
      refine forall_le_raised.mpr ⟨fun c hc hle => ?_, fun hle => ?_⟩
      · exact Set.mem_insert_of_mem i (h j hj c hc hle)
      · exact Set.mem_insert_iff.mpr (horder j hj hle)
  | raise i =>
    constructor
    · intro hstep j hj hle
      exact (forall_le_raised.mp (hstep j hj)).2 hle
    · intro horder j hj
      exact forall_le_raised.mpr ⟨h j hj, horder j hj⟩

section Run

variable {σ ι : Type*} {f : σ → ι → Option σ} {view : σ → HighWater α}
  {event : σ → ι → Option (Event α)} {P : σ → Prop}

/-- **The same for runs** of a machine that has such a mark: the mark is right in
every state of a run just if each step keeps to the order. -/
theorem covered_run_iff (hP : ∀ s a s', P s → f s a = some s' → P s')
    (hview : ∀ s a s', P s → f s a = some s' →
      view s' = (event s a).elim (view s) (view s).step)
    {s : σ} (h₀ : P s) (hcovered : (view s).Covered) (as : List ι)
    (htaken : ∀ s a, f s a = none → event s a = none) :
    (∀ before after s', as = before ++ after → run f s before = some s' → (view s').Covered) ↔
      Meets f (fun s a => ∀ e ∈ event s a, (view s).InOrder e) s as := by
  induction as generalizing s with
  | nil =>
    refine iff_of_true ?_ trivial
    intro before after s' hsplit hrun
    obtain ⟨rfl, rfl⟩ := List.append_eq_nil_iff.mp hsplit.symm
    cases hrun
    exact hcovered
  | cons a as ih =>
    have hstep : ∀ s', f s a = some s' →
        ((view s').Covered ↔ ∀ e ∈ event s a, (view s).InOrder e) := by
      intro s' hs'
      rw [hview s a s' h₀ hs']
      cases event s a with
      | none => simpa using hcovered
      | some e => simpa using hcovered.step_iff e
    constructor
    · intro hall
      refine ⟨?_, fun s' hs' => ?_⟩
      · cases hs : f s a with
        | none => simp [htaken s a hs]
        | some s' => exact (hstep s' hs).mp (hall [a] as s' rfl (run_cons.mpr ⟨s', hs, rfl⟩))
      · have hnext := hall [a] as s' rfl (run_cons.mpr ⟨s', hs', rfl⟩)
        refine (ih (hP s a s' h₀ hs') hnext).mp fun before after u hsplit hrun => ?_
        exact hall (a :: before) after u (congrArg (a :: ·) hsplit) (run_cons.mpr ⟨s', hs', hrun⟩)
    · rintro ⟨horder, hrest⟩ before after u hsplit hrun
      cases before with
      | nil =>
        cases hrun
        exact hcovered
      | cons b before =>
        cases hsplit
        obtain ⟨s', hs', hrun⟩ := run_cons.mp hrun
        exact (ih (hP s a s' h₀ hs') ((hstep s' hs').mpr horder)).mpr (hrest s' hs')
          before after u rfl hrun

end Run

end HighWater

end BlipMQ
