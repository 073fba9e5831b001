import Mathlib.Data.List.Basic

/-!
# Runs of a guarded step function

`step s a` is the state after action `a`, or `none` where `a` is not
enabled. A run is a list of enabled actions; the two rules below turn a
step lemma into a run lemma.
-/

namespace BlipMQ

section Run

variable {σ α : Type*} (step : σ → α → Option σ)

/-- The state after the actions, if each is enabled in its turn. -/
def run : σ → List α → Option σ
  | s, [] => some s
  | s, a :: as => (step s a).bind fun s' => run s' as

/-- Each step of the run meets `cond` in the state it is taken from. -/
def Meets (cond : σ → α → Prop) : σ → List α → Prop
  | _, [] => True
  | s, a :: as => cond s a ∧ ∀ s', step s a = some s' → Meets cond s' as

/-- Conditions that can be evaluated can be evaluated along a run. -/
instance Meets.decidable (cond : σ → α → Prop) [∀ s a, Decidable (cond s a)] :
    ∀ (s : σ) (as : List α), Decidable (Meets step cond s as)
  | _, [] => isTrue trivial
  | s, a :: as =>
    match h : step s a with
    | none => decidable_of_iff (cond s a) (by simp [Meets, h])
    | some t =>
      have := Meets.decidable cond t as
      decidable_of_iff (cond s a ∧ Meets step cond t as) (by simp [Meets, h])

variable {step}

@[simp] theorem run_nil (s : σ) : run step s [] = some s := rfl

theorem run_cons {s s' : σ} {a : α} {as : List α} :
    run step s (a :: as) = some s' ↔ ∃ t, step s a = some t ∧ run step t as = some s' := by
  simp [run, Option.bind_eq_some_iff]

theorem run_append {s s' : σ} {as bs : List α} :
    run step s (as ++ bs) = some s' ↔ ∃ t, run step s as = some t ∧ run step t bs = some s' := by
  induction as generalizing s with
  | nil => simp
  | cons a as ih =>
    simp only [List.cons_append, run_cons, ih]
    constructor
    · rintro ⟨t, ht, u, hu, hs⟩
      exact ⟨u, ⟨t, ht, hu⟩, hs⟩
    · rintro ⟨u, ⟨t, ht, hu⟩, hs⟩
      exact ⟨t, ht, u, hu, hs⟩

/-- What every step that meets `cond` preserves holds after a run of such steps. -/
theorem run_invariant_of_meets {P : σ → Prop} {cond : σ → α → Prop}
    (hstep : ∀ s a s', P s → cond s a → step s a = some s' → P s')
    {s s' : σ} {as : List α} (h₀ : P s) (hmeets : Meets step cond s as)
    (hrun : run step s as = some s') : P s' := by
  induction as generalizing s with
  | nil => cases hrun; exact h₀
  | cons a as ih =>
    obtain ⟨t, ht, hrest⟩ := run_cons.mp hrun
    exact ih (hstep s a t h₀ hmeets.1 ht) (hmeets.2 t ht) hrest

theorem meets_append {cond : σ → α → Prop} {s : σ} {as bs : List α} :
    Meets step cond s (as ++ bs) ↔
      Meets step cond s as ∧ ∀ t, run step s as = some t → Meets step cond t bs := by
  induction as generalizing s with
  | nil => simp [Meets]
  | cons a as ih =>
    simp only [List.cons_append, Meets, ih, run_cons]
    constructor
    · rintro ⟨ha, hrest⟩
      refine ⟨⟨ha, fun t ht => (hrest t ht).1⟩, ?_⟩
      rintro u ⟨t, ht, hu⟩
      exact (hrest t ht).2 u hu
    · rintro ⟨⟨ha, has⟩, hbs⟩
      exact ⟨ha, fun t ht => ⟨has t ht, fun u hu => hbs u ⟨t, ht, hu⟩⟩⟩

/-- A condition on the actions alone is met if all of them have it. -/
theorem meets_of_forall {C : α → Prop} (s : σ) {as : List α} (h : ∀ a ∈ as, C a) :
    Meets step (fun _ a => C a) s as := by
  induction as generalizing s with
  | nil => trivial
  | cons a as ih =>
    obtain ⟨ha, has⟩ := List.forall_mem_cons.mp h
    exact ⟨ha, fun t _ => ih t has⟩

theorem meets_true (s : σ) (as : List α) : Meets step (fun _ _ => True) s as :=
  meets_of_forall s fun _ _ => trivial

/-- What every step preserves holds after every run. -/
theorem run_invariant {P : σ → Prop}
    (hstep : ∀ s a s', P s → step s a = some s' → P s')
    {s s' : σ} {as : List α} (h₀ : P s) (hrun : run step s as = some s') : P s' :=
  run_invariant_of_meets (fun s a s' hP _ h => hstep s a s' hP h) h₀ (meets_true s as) hrun

/-! ## Outputs -/

/-- What the steps of a run put out. -/
def outputs {ω : Type*} (step : σ → α → Option σ) (out : σ → α → List ω) : σ → List α → List ω
  | _, [] => []
  | s, a :: as =>
    out s a ++ match step s a with
      | none => []
      | some t => outputs step out t as

/-- What is put out comes from a step that is taken in the run. -/
theorem mem_outputs {ω : Type*} {out : σ → α → List ω} {s : σ} {as : List α} {w : ω}
    (h : w ∈ outputs step out s as) :
    ∃ before a after t, as = before ++ a :: after ∧ run step s before = some t ∧ w ∈ out t a := by
  induction as generalizing s with
  | nil => exact absurd h List.not_mem_nil
  | cons a as ih =>
    rcases List.mem_append.mp h with hw | hw
    · exact ⟨[], a, as, s, rfl, rfl, hw⟩
    · cases ht : step s a with
      | none =>
        rw [ht] at hw
        exact absurd hw List.not_mem_nil
      | some t =>
        rw [ht] at hw
        obtain ⟨before, b, after, u, rfl, hrun, hout⟩ := ih hw
        exact ⟨a :: before, b, after, u, rfl, run_cons.mpr ⟨t, ht, hrun⟩, hout⟩

/-- **Invariants with outputs**: what every step preserves, of the state and of all
that was put out up to it, holds after every run. Of the outputs of the whole
run `ok` may be taken for granted. -/
theorem run_outputs_invariant {ω : Type*} {out : σ → α → List ω} {ok : ω → Prop}
    {P : σ → List ω → Prop}
    (hstep : ∀ s before a s', P s before → (∀ w ∈ out s a, ok w) → step s a = some s' →
      P s' (before ++ out s a))
    {s s' : σ} {as : List α} (h₀ : P s []) (hrun : run step s as = some s')
    (hok : ∀ w ∈ outputs step out s as, ok w) : P s' (outputs step out s as) := by
  have hgen : ∀ (as : List α) (s : σ) before, P s before → run step s as = some s' →
      (∀ w ∈ outputs step out s as, ok w) → P s' (before ++ outputs step out s as) := by
    intro as
    induction as with
    | nil =>
      intro s before h hrun _
      cases hrun
      rw [outputs, List.append_nil]
      exact h
    | cons a as ih =>
      intro s before h hrun hok
      obtain ⟨t, ht, hrest⟩ := run_cons.mp hrun
      simp only [outputs, ht, List.mem_append] at hok ⊢
      rw [← List.append_assoc]
      exact ih t _ (hstep s before a t h (fun w hw => hok w (.inl hw)) ht) hrest
        fun w hw => hok w (.inr hw)
  exact hgen as s [] h₀ hrun hok

end Run

/-! ## What a computation comes to

A statement about the result of a closed run, or of any computation that may
fail, can be evaluated. -/

section Results

variable {α ε : Type*} {p : α → Prop} [∀ a, Decidable (p a)]

instance decidableExistsSome : ∀ o : Option α, Decidable (∃ a, o = some a ∧ p a)
  | none => isFalse nofun
  | some a => decidable_of_iff (p a) (by simp)

instance decidableExistsOk : ∀ x : Except ε α, Decidable (∃ a, x = .ok a ∧ p a)
  | .error _ => isFalse nofun
  | .ok a => decidable_of_iff (p a) (by simp)

instance decidableEqError [DecidableEq ε] (e : ε) : ∀ x : Except ε α, Decidable (x = .error e)
  | .error e' => decidable_of_iff (e' = e) (by simp)
  | .ok _ => isFalse nofun

end Results

end BlipMQ
