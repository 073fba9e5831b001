import Mathlib.Data.List.Basic

/-!
# Machines with an output at every step

A machine takes one input after the other, each with an output. Two machines
that a relation keeps together answer every sequence of inputs alike. What is
known about a state can mention the trace that led to it. A fold can put
things out on its way.
-/

namespace BlipMQ

section Machine

variable {σ τ ι ω : Type*}

/-- The state after the inputs, and the output at each of them. -/
def exec (step : σ → ι → σ × ω) : σ → List ι → σ × List ω
  | s, [] => (s, [])
  | s, i :: inputs =>
    let out := step s i
    let rest := exec step out.1 inputs
    (rest.1, out.2 :: rest.2)

/-- **Lockstep**: if one step keeps two machines related and their outputs equal,
then so does every run. -/
theorem exec_lockstep {step : σ → ι → σ × ω} {step' : τ → ι → τ × ω} {R : σ → τ → Prop}
    (hstep : ∀ s t i, R s t → R (step s i).1 (step' t i).1 ∧ (step s i).2 = (step' t i).2)
    {s : σ} {t : τ} (h : R s t) (inputs : List ι) :
    R (exec step s inputs).1 (exec step' t inputs).1 ∧
      (exec step s inputs).2 = (exec step' t inputs).2 := by
  induction inputs generalizing s t with
  | nil => exact ⟨h, rfl⟩
  | cons i inputs ih =>
    obtain ⟨hrel, hout⟩ := hstep s t i h
    obtain ⟨hend, houts⟩ := ih hrel
    exact ⟨hend, congrArg₂ List.cons hout houts⟩

/-- The inputs with their outputs. -/
def trace (step : σ → ι → σ × ω) : σ → List ι → List (ι × ω)
  | _, [] => []
  | s, i :: inputs => (i, (step s i).2) :: trace step (step s i).1 inputs

/-- **Invariants with a history**: what every step preserves, of the state and the
trace up to it, holds after every run. -/
theorem trace_invariant {step : σ → ι → σ × ω} {P : σ → List (ι × ω) → Prop}
    (hstep : ∀ s before i, P s before → P (step s i).1 (before ++ [(i, (step s i).2)]))
    {s : σ} (h : P s []) (inputs : List ι) : P (exec step s inputs).1 (trace step s inputs) := by
  have hgen : ∀ s before, P s before →
      P (exec step s inputs).1 (before ++ trace step s inputs) := by
    induction inputs with
    | nil =>
      intro s before h
      rw [trace, List.append_nil]
      exact h
    | cons i inputs ih =>
      intro s before h
      have hrest := ih (step s i).1 _ (hstep s before i h)
      rwa [List.append_assoc] at hrest
  exact hgen s [] h

/-- What is put out along a fold. -/
def emitted (f : σ → ι → σ) (out : σ → ι → List ω) : σ → List ι → List ω
  | _, [] => []
  | s, i :: inputs => out s i ++ emitted f out (f s i) inputs

theorem emitted_append (f : σ → ι → σ) (out : σ → ι → List ω) (s : σ) (is js : List ι) :
    emitted f out s (is ++ js) = emitted f out s is ++ emitted f out (is.foldl f s) js := by
  induction is generalizing s with
  | nil => rfl
  | cons i is ih => rw [List.cons_append, emitted, ih, emitted, List.append_assoc, List.foldl_cons]

/-- What is put out comes from one of the inputs. -/
theorem mem_emitted {f : σ → ι → σ} {out : σ → ι → List ω} {s : σ} {inputs : List ι} {w : ω}
    (h : w ∈ emitted f out s inputs) : ∃ t i, i ∈ inputs ∧ w ∈ out t i := by
  induction inputs generalizing s with
  | nil => exact absurd h List.not_mem_nil
  | cons i inputs ih =>
    rcases List.mem_append.mp h with h | h
    · exact ⟨s, i, List.mem_cons_self, h⟩
    · obtain ⟨t, j, hj, hw⟩ := ih h
      exact ⟨t, j, List.mem_cons_of_mem _ hj, hw⟩

/-- **Bounds along a fold**: if a step from a state within the bound stays within it
just if it meets a condition, then all states on the way are within the bound
just if every step meets the condition. -/
theorem bounded_along_iff {f : σ → ι → σ} {P Q : σ → Prop} {C : σ → ι → Prop}
    {inputs : List ι} (hinv : ∀ s, ∀ i ∈ inputs, P s → P (f s i))
    (hstep : ∀ s, ∀ i ∈ inputs, P s → Q s → (Q (f s i) ↔ C s i))
    {s : σ} (h : P s) (hbound : Q s) :
    (∀ done, done <+: inputs → Q (done.foldl f s)) ↔
      ∀ done i, done ++ [i] <+: inputs → C (done.foldl f s) i := by
  induction inputs generalizing s with
  | nil =>
    refine iff_of_true ?_ ?_
    · intro done hdone
      rw [List.prefix_nil.mp hdone]
      exact hbound
    · intro done i hdone
      simp at hdone
  | cons j inputs ih =>
    have hnext : Q (f s j) → ((∀ done, done <+: inputs → Q (done.foldl f (f s j))) ↔
        ∀ done i, done ++ [i] <+: inputs → C (done.foldl f (f s j)) i) :=
      ih (fun s i hi => hinv s i (List.mem_cons_of_mem _ hi))
        (fun s i hi => hstep s i (List.mem_cons_of_mem _ hi)) (hinv s j List.mem_cons_self h)
    have hfirst := hstep s j List.mem_cons_self h hbound
    constructor
    · intro hall done i hdone
      have hj : Q (f s j) := hall [j] (List.prefix_append [j] inputs)
      cases done with
      | nil =>
        obtain ⟨rfl, -⟩ := List.cons_prefix_cons.mp hdone
        exact hfirst.mp hj
      | cons k done =>
        obtain ⟨rfl, hlater⟩ := List.cons_prefix_cons.mp hdone
        refine (hnext hj).mp (fun rest hrest => ?_) done i hlater
        exact hall (k :: rest) (List.cons_prefix_cons.mpr ⟨rfl, hrest⟩)
    · intro hconds done hdone
      have hj : Q (f s j) := hfirst.mpr (hconds [] j (List.prefix_append [j] inputs))
      cases done with
      | nil => exact hbound
      | cons k done =>
        obtain ⟨rfl, hlater⟩ := List.cons_prefix_cons.mp hdone
        refine (hnext hj).mpr (fun rest i hrest => ?_) done hlater
        exact hconds (k :: rest) i (List.cons_prefix_cons.mpr ⟨rfl, hrest⟩)

/-- Every step of a fold meets a condition on the state it starts from. -/
def Along (f : σ → ι → σ) (C : σ → ι → Prop) : σ → List ι → Prop
  | _, [] => True
  | s, i :: inputs => C s i ∧ Along f C (f s i) inputs

instance instDecidableAlong {f : σ → ι → σ} {C : σ → ι → Prop} [∀ s i, Decidable (C s i)] (s : σ) :
    (inputs : List ι) → Decidable (Along f C s inputs)
  | [] => .isTrue trivial
  | i :: inputs =>
    have : Decidable (Along f C (f s i) inputs) := instDecidableAlong (f s i) inputs
    inferInstanceAs (Decidable (C s i ∧ Along f C (f s i) inputs))

/-- What a step preserves under the condition holds at the end. -/
theorem Along.foldl {f : σ → ι → σ} {P : σ → Prop} {C : σ → ι → Prop} {s : σ} {inputs : List ι}
    (h : Along f C s inputs) (hstep : ∀ s i, P s → C s i → P (f s i)) (hs : P s) :
    P (inputs.foldl f s) := by
  induction inputs generalizing s with
  | nil => exact hs
  | cons i inputs ih => exact ih h.2 (hstep s i hs h.1)

theorem Along.of_prefix {f : σ → ι → σ} {C : σ → ι → Prop} {s : σ} {done inputs : List ι}
    (h : Along f C s inputs) (hdone : done <+: inputs) : Along f C s done := by
  induction done generalizing s inputs with
  | nil => trivial
  | cons i done ih =>
    obtain ⟨rest, rfl⟩ := hdone
    exact ⟨h.1, ih h.2 (List.prefix_append done rest)⟩

end Machine

end BlipMQ
