import Mathlib.Data.List.Basic
import Mathlib.Data.List.Pairwise

/-!
# A directory of numbered files

Files under distinct numbers, listed in ascending order. The order is part
of the type, so that a listing never needs to be sorted again.
-/

namespace BlipMQ

structure Dir (α : Type*) where
  files : List (Nat × α)
  sorted : files.Pairwise fun a b => a.1 < b.1

namespace Dir

variable {α β : Type*}

def empty : Dir α := ⟨[], .nil⟩

/-- The file numbers, ascending. -/
def seqs (d : Dir α) : List Nat := d.files.map Prod.fst

def find? (d : Dir α) (seq : Nat) : Option α :=
  (d.files.find? fun p => p.1 == seq).map Prod.snd

/-- Rewrites each file; the numbers stay. -/
def map (f : Nat → α → β) (d : Dir α) : Dir β where
  files := d.files.map fun p => (p.1, f p.1 p.2)
  sorted := List.pairwise_map.mpr d.sorted

/-- Rewrites the one file `seq`. -/
def modify (d : Dir α) (seq : Nat) (f : α → α) : Dir α :=
  d.map fun s a => if s = seq then f a else a

/-- Puts a new file in its place in the listing. -/
def insert (d : Dir α) (seq : Nat) (a : α) : Dir α where
  files := d.files.filter (·.1 < seq) ++ (seq, a) :: d.files.filter (seq < ·.1)
  sorted := by
    refine List.pairwise_append.mpr ⟨d.sorted.filter _, List.pairwise_cons.mpr
      ⟨?_, d.sorted.filter _⟩, ?_⟩
    · intro p hp
      simpa using (List.mem_filter.mp hp).2
    · intro p hp q hq
      have hlt : p.1 < seq := by simpa using (List.mem_filter.mp hp).2
      rcases List.mem_cons.mp hq with rfl | hq
      · exact hlt
      · have hgt : seq < q.1 := by simpa using (List.mem_filter.mp hq).2
        omega

/-- `create_new`: fails where a file of that number exists. -/
def create (d : Dir α) (seq : Nat) (a : α) : Option (Dir α) :=
  if seq ∈ d.seqs then none else some (d.insert seq a)

/-- The files whose number has `p`. -/
def filter (p : Nat → Bool) (d : Dir α) : Dir α where
  files := d.files.filter fun f => p f.1
  sorted := d.sorted.filter _

theorem ext_files {d e : Dir α} (h : d.files = e.files) : d = e := by
  cases d; cases e; cases h; rfl

@[simp] theorem map_files (f : Nat → α → β) (d : Dir α) :
    (d.map f).files = d.files.map fun p => (p.1, f p.1 p.2) := rfl

theorem seqs_map (f : Nat → α → β) (d : Dir α) : (d.map f).seqs = d.seqs := by
  rw [seqs, map_files, List.map_map]
  rfl

theorem seqs_modify (d : Dir α) (seq : Nat) (f : α → α) : (d.modify seq f).seqs = d.seqs :=
  seqs_map _ d

theorem modify_self (d : Dir α) (seq : Nat) : d.modify seq (fun a => a) = d := by
  refine ext_files ?_
  simp [modify]

/-- Rewriting one file, seen through a view of the files. -/
theorem map_modify {h : α → β} {f : α → α} {g : β → β} (hfg : ∀ a, h (f a) = g (h a))
    (d : Dir α) (seq : Nat) :
    (d.modify seq f).map (fun _ => h) = (d.map fun _ => h).modify seq g := by
  refine ext_files ?_
  simp only [modify, map_files, List.map_map]
  refine List.map_congr_left fun p _ => ?_
  by_cases hp : p.1 = seq <;> simp [hp, hfg]

theorem seqs_filter (p : Nat → Bool) (d : Dir α) : (d.filter p).seqs = d.seqs.filter p := by
  rw [seqs, seqs, List.filter_map]
  rfl

theorem filter_filter (p q : Nat → Bool) (d : Dir α) :
    (d.filter p).filter q = d.filter fun seq => q seq && p seq :=
  ext_files List.filter_filter

theorem nodup_seqs (d : Dir α) : d.seqs.Nodup :=
  List.pairwise_map.mpr (d.sorted.imp fun h => Nat.ne_of_lt h)

variable {seq : Nat}

theorem find?_eq_some {d : Dir α} {a : α} : d.find? seq = some a ↔ (seq, a) ∈ d.files := by
  constructor
  · intro h
    obtain ⟨p, hp, rfl⟩ := Option.map_eq_some_iff.mp h
    have hseq : p.1 = seq := by simpa using List.find?_some hp
    exact hseq ▸ List.mem_of_find?_eq_some hp
  · intro h
    have hnd := d.nodup_seqs
    unfold seqs at hnd
    unfold find?
    revert h hnd
    induction d.files with
    | nil => simp
    | cons p ps ih =>
      intro h hnd
      simp only [List.map_cons, List.nodup_cons] at hnd
      by_cases hp : p.1 = seq
      · rcases List.mem_cons.mp h with rfl | h
        · simp
        · exact absurd (List.mem_map_of_mem (f := Prod.fst) h) (hp ▸ hnd.1)
      · rcases List.mem_cons.mp h with rfl | h
        · exact absurd rfl hp
        · rw [List.find?_cons_of_neg (by simpa using hp)]
          exact ih h hnd.2

theorem mem_seqs_of_find? {d : Dir α} {a : α} (h : d.find? seq = some a) : seq ∈ d.seqs :=
  List.mem_map_of_mem (f := Prod.fst) (find?_eq_some.mp h)

/-- The last file has the highest number. -/
theorem le_last {d : Dir α} {front : List (Nat × α)} {last p : Nat × α}
    (h : d.files = front ++ [last]) (hp : p ∈ d.files) : p.1 ≤ last.1 := by
  have hsorted := List.pairwise_append.mp (h ▸ d.sorted)
  rw [h] at hp
  exact (List.mem_append.mp hp).elim
    (fun hp => Nat.le_of_lt (hsorted.2.2 p hp last (List.mem_singleton_self _)))
    fun hp => Nat.le_of_eq (congrArg Prod.fst (List.mem_singleton.mp hp))

theorem find?_map (f : Nat → α → β) (d : Dir α) (seq : Nat) :
    (d.map f).find? seq = (d.find? seq).map (f seq) := by
  ext b
  rw [find?_eq_some, Option.map_eq_some_iff, map_files, List.mem_map]
  constructor
  · rintro ⟨p, hp, heq⟩
    cases heq
    exact ⟨p.2, find?_eq_some.mpr hp, rfl⟩
  · rintro ⟨a, ha, rfl⟩
    exact ⟨(seq, a), find?_eq_some.mp ha, rfl⟩

theorem find?_modify (d : Dir α) (seq : Nat) (f : α → α) (q : Nat) :
    (d.modify seq f).find? q = (d.find? q).map fun a => if q = seq then f a else a :=
  find?_map _ d q

/-- A new file hides no other. -/
theorem find?_create_of_ne {d d' : Dir α} {q : Nat} {a b : α} (hcreate : d.create seq a = some d')
    (h : q ≠ seq) (hq : d.find? q = some b) : d'.find? q = some b := by
  unfold create at hcreate
  split at hcreate
  · cases hcreate
  rw [← Option.some.inj hcreate]
  rw [find?_eq_some] at hq ⊢
  simp only [insert, List.mem_append, List.mem_cons, List.mem_filter, decide_eq_true_eq]
  rcases Nat.lt_or_gt_of_ne h with hlt | hgt
  · exact .inl ⟨hq, hlt⟩
  · exact .inr (.inr ⟨hq, hgt⟩)

/-- Every file of `d` is still there in `d'`, and `R` says how it has changed. -/
def Keeps (R : α → α → Prop) (d d' : Dir α) : Prop :=
  ∀ seq a, d.find? seq = some a → ∃ a', d'.find? seq = some a' ∧ R a a'

section Keeps

variable {R : α → α → Prop} {d d' : Dir α}

theorem Keeps.refl (hR : ∀ a, R a a) (d : Dir α) : d.Keeps R d :=
  fun _ a ha => ⟨a, ha, hR a⟩

variable {seq : Nat}

theorem Keeps.mem_seqs (h : d.Keeps R d') (hseq : seq ∈ d.seqs) : seq ∈ d'.seqs := by
  obtain ⟨⟨q, a⟩, hfile, rfl⟩ := List.mem_map.mp hseq
  obtain ⟨a', hfile', -⟩ := h q a (find?_eq_some.mpr hfile)
  exact mem_seqs_of_find? hfile'

theorem keeps_modify (hR : ∀ a, R a a) {f : α → α} (hf : ∀ a, d.find? seq = some a → R a (f a)) :
    d.Keeps R (d.modify seq f) := by
  intro q a ha
  refine ⟨if q = seq then f a else a, by rw [find?_modify, ha]; rfl, ?_⟩
  split
  · rename_i hq
    exact hf a (hq ▸ ha)
  · exact hR a

theorem keeps_create (hR : ∀ a, R a a) {a : α} (hcreate : d.create seq a = some d') :
    d.Keeps R d' := by
  intro q b hb
  refine ⟨b, find?_create_of_ne hcreate ?_ hb, hR b⟩
  rintro rfl
  rw [create, if_pos (mem_seqs_of_find? hb)] at hcreate
  cases hcreate

end Keeps

theorem find?_filter_of_pos {d : Dir α} {p : Nat → Bool} {a : α} (h : p seq)
    (ha : d.find? seq = some a) : (d.filter p).find? seq = some a :=
  find?_eq_some.mpr (List.mem_filter.mpr ⟨find?_eq_some.mp ha, h⟩)

/-- A file numbered above all others goes to the end of the listing. -/
theorem insert_files_of_gt {d : Dir α} (h : ∀ p ∈ d.files, p.1 < seq) (a : α) :
    (d.insert seq a).files = d.files ++ [(seq, a)] := by
  have hlow : d.files.filter (·.1 < seq) = d.files :=
    List.filter_eq_self.mpr fun p hp => by simpa using h p hp
  have hhigh : d.files.filter (seq < ·.1) = [] :=
    List.filter_eq_nil_iff.mpr fun p hp => by simpa using Nat.le_of_lt (h p hp)
  show d.files.filter (·.1 < seq) ++ (seq, a) :: d.files.filter (seq < ·.1) = _
  rw [hlow, hhigh]

theorem create_eq_of_gt {d : Dir α} (h : ∀ p ∈ d.files, p.1 < seq) (a : α) :
    d.create seq a = some (d.insert seq a) := by
  rw [create, if_neg]
  intro hmem
  obtain ⟨p, hp, rfl⟩ := List.mem_map.mp hmem
  exact Nat.lt_irrefl _ (h p hp)

/-- Rewriting one file where it stands in the listing. -/
theorem modify_files {d : Dir α} {front back : List (Nat × α)} {a : α}
    (h : d.files = front ++ (seq, a) :: back) (f : α → α) :
    (d.modify seq f).files = front ++ (seq, f a) :: back := by
  have hsorted := d.sorted
  rw [h] at hsorted
  obtain ⟨-, hcons, hcross⟩ := List.pairwise_append.mp hsorted
  have hkeep : ∀ ps : List (Nat × α), (∀ p ∈ ps, p.1 ≠ seq) →
      ps.map (fun p => (p.1, if p.1 = seq then f p.2 else p.2)) = ps := by
    intro ps hps
    conv_rhs => rw [← List.map_id ps]
    exact List.map_congr_left fun p hp => by simp [hps p hp]
  have hfront := hkeep front fun p hp => Nat.ne_of_lt (hcross p hp _ List.mem_cons_self)
  have hback := hkeep back fun p hp => Nat.ne_of_gt ((List.pairwise_cons.mp hcons).1 p hp)
  simp only [modify, map_files, h, List.map_append, List.map_cons, hfront, hback, if_true]

end Dir

end BlipMQ
