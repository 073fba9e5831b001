import Mathlib.Data.List.AList

/-!
# Finite maps

What hash maps are used for beside lookup and insertion: changing the value
under a key that is there, dropping some of the pairs, and keeping for each
key the highest value seen so far.
-/

namespace BlipMQ

section ModifyAt

variable {κ : Type*} {β : Type*} [DecidableEq κ]

/-- The map with `f` applied to the value under `k`, if there is one. -/
def modifyAt (m : AList fun _ : κ => β) (k : κ) (f : β → β) : AList fun _ : κ => β :=
  match m.lookup k with
  | none => m
  | some v => m.insert k (f v)

theorem lookup_insert_eq (m : AList fun _ : κ => β) (k j : κ) (v : β) :
    (m.insert k v).lookup j = if j = k then some v else m.lookup j := by
  by_cases h : j = k
  · subst h
    rw [AList.lookup_insert, if_pos rfl]
  · rw [AList.lookup_insert_ne h, if_neg h]

theorem lookup_erase_eq (m : AList fun _ : κ => β) (k j : κ) :
    (m.erase k).lookup j = if j = k then none else m.lookup j := by
  by_cases h : j = k
  · subst h
    rw [AList.lookup_erase, if_pos rfl]
  · rw [AList.lookup_erase_ne h, if_neg h]

theorem lookup_insert_eq_some {m : AList fun _ : κ => β} {k j : κ} {v w : β} :
    (m.insert k v).lookup j = some w ↔ (j = k ∧ v = w) ∨ (j ≠ k ∧ m.lookup j = some w) := by
  rw [lookup_insert_eq]
  by_cases h : j = k <;> simp [h]

/-- What is found after an insertion is new, or was there. -/
theorem lookup_insert_cases {m : AList fun _ : κ => β} {k j : κ} {v w : β}
    (h : (m.insert k v).lookup j = some w) : j = k ∧ w = v ∨ m.lookup j = some w :=
  (lookup_insert_eq_some.mp h).imp (fun h => ⟨h.1, h.2.symm⟩) And.right

theorem lookup_erase_eq_some {m : AList fun _ : κ => β} {k j : κ} {w : β} :
    (m.erase k).lookup j = some w ↔ j ≠ k ∧ m.lookup j = some w := by
  rw [lookup_erase_eq]
  by_cases h : j = k <;> simp [h]

theorem isSome_lookup_insert {m : AList fun _ : κ => β} {k j : κ} {v : β} :
    ((m.insert k v).lookup j).isSome ↔ j = k ∨ (m.lookup j).isSome := by
  simp only [AList.lookup_isSome, AList.mem_insert]

theorem isSome_lookup_erase {m : AList fun _ : κ => β} {k j : κ} :
    ((m.erase k).lookup j).isSome ↔ j ≠ k ∧ (m.lookup j).isSome := by
  simp only [AList.lookup_isSome, AList.mem_erase]

/-- What all entries have and a new one too, all have afterwards. -/
theorem forall_lookup_insert {m : AList fun _ : κ => β} {R : κ → β → Prop} {k : κ} {v : β}
    (h : ∀ j w, m.lookup j = some w → R j w) (hv : R k v) :
    ∀ j w, (m.insert k v).lookup j = some w → R j w := by
  intro j w hj
  rcases lookup_insert_eq_some.mp hj with ⟨rfl, rfl⟩ | ⟨-, hj⟩
  · exact hv
  · exact h j w hj

theorem forall_lookup_erase {m : AList fun _ : κ => β} {R : κ → β → Prop}
    (h : ∀ j w, m.lookup j = some w → R j w) (k : κ) :
    ∀ j w, (m.erase k).lookup j = some w → R j w :=
  fun j w hj => h j w (lookup_erase_eq_some.mp hj).2

theorem length_erase_of_mem {m : AList fun _ : κ => β} {k : κ} (h : k ∈ m) :
    (m.erase k).entries.length + 1 = m.entries.length := by
  have hkeys : (m.erase k).keys.length = m.keys.length - 1 := by
    rw [AList.keys_erase, List.length_erase_of_mem (AList.mem_keys.mp h)]
  have hpos : 0 < m.keys.length := List.length_pos_of_mem (AList.mem_keys.mp h)
  simp only [AList.keys, List.keys, List.length_map] at hkeys hpos
  omega

theorem length_erase_le (m : AList fun _ : κ => β) (k : κ) :
    (m.erase k).entries.length ≤ m.entries.length :=
  (List.kerase_sublist k m.entries).length_le

theorem length_insert_le (m : AList fun _ : κ => β) (k : κ) (v : β) :
    (m.insert k v).entries.length ≤ m.entries.length + 1 :=
  Nat.succ_le_succ (length_erase_le m k)

omit [DecidableEq κ] in
/-- A map is no larger than a list that has all its keys. -/
theorem length_le_of_keys_subset {m : AList fun _ : κ => β} {keys : List κ}
    (h : ∀ k ∈ m, k ∈ keys) : m.entries.length ≤ keys.length := by
  have hle := (List.subperm_of_subset m.keys_nodup h).length_le
  rwa [AList.keys, List.keys, List.length_map] at hle

/-- Maps with the same pairs, in whatever order, are of the same size. -/
theorem length_eq_of_lookup_eq {m m' : AList fun _ : κ => β}
    (h : ∀ k, m.lookup k = m'.lookup k) : m.entries.length = m'.entries.length := by
  have hperm : m.keys.Perm m'.keys := by
    refine (List.perm_ext_iff_of_nodup m.keys_nodup m'.keys_nodup).mpr fun k => ?_
    rw [← AList.mem_keys, ← AList.mem_keys, ← AList.lookup_isSome, ← AList.lookup_isSome, h k]
  have hlength := hperm.length_eq
  simpa only [AList.keys, List.keys, List.length_map] using hlength

theorem lookup_modifyAt (m : AList fun _ : κ => β) (k j : κ) (f : β → β) :
    (modifyAt m k f).lookup j = if j = k then (m.lookup k).map f else m.lookup j := by
  unfold modifyAt
  cases hk : m.lookup k with
  | none =>
    by_cases h : j = k
    · subst h
      simp [hk]
    · simp [h]
  | some v => exact lookup_insert_eq m k j (f v)

/-- The map with `f` applied to every value; keys whose value becomes `none` go. -/
def filterMapValues (m : AList fun _ : κ => β) (f : β → Option β) : AList fun _ : κ => β where
  entries := m.entries.filterMap fun e => (f e.2).map (Sigma.mk e.1)
  nodupKeys := by
    rw [List.nodupKeys_iff_pairwise]
    refine List.Pairwise.filterMap _ ?_ (List.nodupKeys_iff_pairwise.mp m.nodupKeys)
    intro a b hab c hc d hd
    obtain ⟨_, _, rfl⟩ := Option.map_eq_some_iff.mp hc
    obtain ⟨_, _, rfl⟩ := Option.map_eq_some_iff.mp hd
    exact hab

theorem lookup_filterMapValues (m : AList fun _ : κ => β) (f : β → Option β) (k : κ) :
    (filterMapValues m f).lookup k = (m.lookup k).bind f := by
  refine Option.ext fun v => ?_
  rw [Option.bind_eq_some_iff]
  constructor
  · intro h
    obtain ⟨e, he, hv⟩ := List.mem_filterMap.mp (AList.mem_lookup_iff.mp h)
    obtain ⟨w, hw, heq⟩ := Option.map_eq_some_iff.mp hv
    cases heq
    exact ⟨e.2, AList.mem_lookup_iff.mpr he, hw⟩
  · rintro ⟨w, hw, hv⟩
    refine AList.mem_lookup_iff.mpr (List.mem_filterMap.mpr ⟨⟨k, w⟩, ?_, ?_⟩)
    · exact AList.mem_lookup_iff.mp hw
    · rw [hv]
      rfl

end ModifyAt

/-! ## Keeping some of the pairs -/

section Keep

variable {κ : Type*} {β : Type*}

/-- The map with only the pairs that have `p`. -/
def keep (m : AList fun _ : κ => β) (p : κ → β → Bool) : AList fun _ : κ => β where
  entries := m.entries.filter fun e => p e.1 e.2
  nodupKeys := m.nodupKeys.sublist List.filter_sublist

theorem keep_keep (m : AList fun _ : κ => β) (p q : κ → β → Bool) :
    keep (keep m p) q = keep m fun k v => p k v && q k v := by
  refine AList.ext ?_
  show (m.entries.filter _).filter _ = m.entries.filter _
  rw [List.filter_filter]
  exact List.filter_congr fun e _ => Bool.and_comm ..

variable [DecidableEq κ] {m : AList fun _ : κ => β} {p q : κ → β → Bool}

theorem lookup_keep (m : AList fun _ : κ => β) (p : κ → β → Bool) (k : κ) :
    (keep m p).lookup k = (m.lookup k).filter (p k) := by
  refine Option.ext fun v => ?_
  rw [Option.filter_eq_some_iff]
  constructor
  · intro h
    have hmem := List.mem_filter.mp (AList.mem_lookup_iff.mp h)
    exact ⟨AList.mem_lookup_iff.mpr hmem.1, hmem.2⟩
  · rintro ⟨h, hp⟩
    exact AList.mem_lookup_iff.mpr (List.mem_filter.mpr ⟨AList.mem_lookup_iff.mp h, hp⟩)

theorem keep_congr (h : ∀ k v, m.lookup k = some v → p k v = q k v) : keep m p = keep m q :=
  AList.ext (List.filter_congr fun e he => h e.1 e.2 (AList.mem_lookup_iff.mpr he))

theorem keep_eq_self (h : ∀ k v, m.lookup k = some v → p k v = true) : keep m p = m :=
  AList.ext (List.filter_eq_self.mpr fun e he => h e.1 e.2 (AList.mem_lookup_iff.mpr he))

theorem erase_eq_keep (m : AList fun _ : κ => β) (k : κ) :
    m.erase k = keep m fun j _ => j ≠ k := by
  have hgen : ∀ l : List (Sigma fun _ : κ => β), l.NodupKeys →
      l.kerase k = l.filter fun e => e.1 ≠ k := by
    intro l
    induction l with
    | nil => intro _; rfl
    | cons e l ih =>
      intro hnd
      obtain ⟨hnew, hnd⟩ := List.nodupKeys_cons.mp hnd
      by_cases he : k = e.1
      · rw [List.kerase_cons_eq he, List.filter_cons_of_neg (by simp [he])]
        refine (List.filter_eq_self.mpr fun x hx => ?_).symm
        have hne : x.1 ≠ k := fun hxk => hnew (he ▸ hxk ▸ List.mem_keys_of_mem hx)
        simpa using hne
      · have hne : e.1 ≠ k := fun hek => he hek.symm
        rw [List.kerase_cons_ne he, List.filter_cons_of_pos (by simpa using hne), ih hnd]
  exact AList.ext (hgen m.entries m.nodupKeys)

/-- Under one key there is at most the pair that a lookup finds. -/
theorem countP_key (m : AList fun _ : κ => β) (k : κ) (f : β → Bool) :
    m.entries.countP (fun e => e.1 = k && f e.2) = (m.lookup k).toList.countP f := by
  have hgen : ∀ l : List (Sigma fun _ : κ => β), l.NodupKeys →
      l.countP (fun e => e.1 = k && f e.2) = (l.dlookup k).toList.countP f := by
    intro l
    induction l with
    | nil => intro _; rfl
    | cons e l ih =>
      intro hnd
      obtain ⟨j, v⟩ := e
      obtain ⟨hnew, hnd⟩ := List.nodupKeys_cons.mp hnd
      by_cases hj : k = j
      · subst hj
        have hrest : l.countP (fun e => e.1 = k && f e.2) = 0 := by
          refine List.countP_eq_zero.mpr fun e he hek => hnew ?_
          have heq : e.1 = k := of_decide_eq_true (Bool.and_eq_true_iff.mp hek).1
          show k ∈ l.keys
          rw [← heq]
          exact List.mem_keys_of_mem he
        rw [List.dlookup_cons_eq, List.countP_cons, hrest]
        simp
      · have hne : ¬ j = k := fun h => hj h.symm
        rw [List.dlookup_cons_ne _ _ hj, List.countP_cons, ih hnd]
        simp [hne]
  exact hgen m.entries m.nodupKeys

/-- A pair that is kept may as well be entered afterwards. -/
theorem insert_keep (m : AList fun _ : κ => β) {k : κ} {v : β} (hp : p k v = true) :
    (keep m p).insert k v = keep (m.insert k v) p := by
  have herase : (keep m p).erase k = keep (m.erase k) p := by
    rw [erase_eq_keep, erase_eq_keep, keep_keep, keep_keep]
    simp only [Bool.and_comm]
  refine AList.ext ?_
  show (⟨k, v⟩ : Sigma fun _ : κ => β) :: ((keep m p).erase k).entries =
    (⟨k, v⟩ :: (m.erase k).entries).filter fun e => p e.1 e.2
  rw [herase, List.filter_cons_of_pos (by exact hp)]
  rfl

end Keep

/-! ## Running maxima -/

/-- The highest value seen for each key. -/
abbrev MaxMap (κ : Type*) := AList fun _ : κ => Nat

namespace MaxMap

variable {κ : Type*} [DecidableEq κ]

/-- The value under a key; a key never seen reads as zero. -/
def get (m : MaxMap κ) (k : κ) : Nat := (m.lookup k).getD 0

/-- `or_insert(0)`, and the new value if it is higher. -/
def raise (m : MaxMap κ) (k : κ) (v : Nat) : MaxMap κ := m.insert k (max (m.get k) v)

def raiseAll (m : MaxMap κ) (es : List (κ × Nat)) : MaxMap κ :=
  es.foldl (fun m e => m.raise e.1 e.2) m

/-- The least value of the map, zero if it is empty. -/
def floor (m : MaxMap κ) : Nat := ((m.entries.map Sigma.snd).min?).getD 0

/-- The pairs of the map. -/
def pairs (m : MaxMap κ) : List (κ × Nat) := m.entries.map fun e => (e.1, e.2)

variable {m : MaxMap κ} {k j : κ} {v n : Nat} {es : List (κ × Nat)}

theorem lookup_raise (m : MaxMap κ) (k : κ) (v : Nat) (j : κ) :
    (m.raise k v).lookup j = if j = k then some (max (m.get k) v) else m.lookup j :=
  lookup_insert_eq m k j _

theorem get_raise (m : MaxMap κ) (k : κ) (v : Nat) (j : κ) :
    (m.raise k v).get j = if j = k then max (m.get k) v else m.get j := by
  rw [get, lookup_raise]
  by_cases h : j = k
  · simp [h]
  · simp [h, get]

theorem get_of_lookup (h : m.lookup k = some v) : m.get k = v := by
  rw [get, h, Option.getD_some]

theorem get_le {n : Nat} (h : ∀ v, m.lookup k = some v → v ≤ n) : m.get k ≤ n := by
  cases hv : m.lookup k with
  | none =>
    rw [get, hv]
    exact Nat.zero_le n
  | some v =>
    rw [get_of_lookup hv]
    exact h v hv

theorem isSome_lookup_raise (m : MaxMap κ) (k : κ) (v : Nat) (j : κ) :
    ((m.raise k v).lookup j).isSome ↔ (m.lookup j).isSome ∨ j = k := by
  rw [lookup_raise]
  by_cases h : j = k <;> simp [h]

theorem mem_pairs {e : κ × Nat} : e ∈ m.pairs ↔ m.lookup e.1 = some e.2 := by
  obtain ⟨k, v⟩ := e
  rw [pairs, List.mem_map]
  constructor
  · rintro ⟨⟨k', v'⟩, hmem, heq⟩
    cases heq
    exact AList.mem_lookup_iff.mpr hmem
  · intro h
    exact ⟨⟨k, v⟩, AList.mem_lookup_iff.mp h, rfl⟩

/-- **What a sequence of raises leaves**: an upper bound of the old value and of
every value offered for the key is an upper bound of the new value. -/
theorem get_raiseAll_le : (m.raiseAll es).get k ≤ n ↔
    m.get k ≤ n ∧ ∀ e ∈ es, e.1 = k → e.2 ≤ n := by
  induction es generalizing m with
  | nil => simp [raiseAll]
  | cons e es ih =>
    have hstep : (m.raise e.1 e.2).get k ≤ n ↔ m.get k ≤ n ∧ (e.1 = k → e.2 ≤ n) := by
      rw [get_raise]
      by_cases h : k = e.1
      · subst h
        rw [if_pos rfl, Nat.max_le]
        exact and_congr_right fun _ => ⟨fun hle _ => hle, fun hle => hle rfl⟩
      · have h' : ¬ e.1 = k := fun he => h he.symm
        simp [h, h']
    have hcons : m.raiseAll (e :: es) = (m.raise e.1 e.2).raiseAll es := rfl
    rw [hcons, ih, hstep]
    simp only [List.mem_cons, forall_eq_or_imp, and_assoc]

theorem isSome_lookup_raiseAll : ((m.raiseAll es).lookup k).isSome ↔
    (m.lookup k).isSome ∨ ∃ e ∈ es, e.1 = k := by
  induction es generalizing m with
  | nil => simp [raiseAll]
  | cons e es ih =>
    have hcons : m.raiseAll (e :: es) = (m.raise e.1 e.2).raiseAll es := rfl
    rw [hcons, ih, isSome_lookup_raise, or_assoc, eq_comm (a := k)]
    simp

theorem le_get_raiseAll (m : MaxMap κ) {e : κ × Nat} (h : e ∈ es) :
    e.2 ≤ (m.raiseAll es).get e.1 :=
  (get_raiseAll_le.mp (Nat.le_refl _)).2 e h rfl

theorem get_le_get_raiseAll (m : MaxMap κ) (es : List (κ × Nat)) (k : κ) :
    m.get k ≤ (m.raiseAll es).get k :=
  (get_raiseAll_le.mp (Nat.le_refl _)).1

/-- The value under a key is the old one or the one offered for it. -/
theorem lookup_raise_cases (h : (m.raise k v).lookup j = some n) :
    m.lookup j = some n ∨ (j, n) = (k, v) := by
  rw [lookup_raise] at h
  by_cases hj : j = k
  · rw [if_pos hj, Option.some.injEq] at h
    rcases Nat.le_total (m.get k) v with hle | hle
    · rw [Nat.max_eq_right hle] at h
      exact .inr (Prod.ext hj h.symm)
    · rw [Nat.max_eq_left hle] at h
      cases hlook : m.lookup j with
      | some w =>
        rw [← hj, get_of_lookup hlook] at h
        exact .inl (by rw [h])
      | none =>
        -- nothing was stored, so both the value read and the one offered are zero
        have hzero : m.get k = 0 := by rw [← hj, get, hlook, Option.getD_none]
        exact .inr (Prod.ext hj (show n = v by omega))
  · rw [if_neg hj] at h
    exact .inl h

theorem lookup_raiseAll_cases (h : (m.raiseAll es).lookup k = some v) :
    m.lookup k = some v ∨ (k, v) ∈ es := by
  induction es generalizing m with
  | nil => exact .inl h
  | cons e es ih =>
    rcases ih (m := m.raise e.1 e.2) h with hm | hmem
    · rcases lookup_raise_cases hm with hm | heq
      · exact .inl hm
      · exact .inr (heq ▸ List.mem_cons_self)
    · exact .inr (List.mem_cons_of_mem _ hmem)

theorem lookup_ext {m m' : MaxMap κ} (hsome : (m.lookup k).isSome ↔ (m'.lookup k).isSome)
    (hget : m.get k = m'.get k) : m.lookup k = m'.lookup k := by
  unfold get at hget
  cases h : m.lookup k with
  | none =>
    rw [h] at hsome
    exact (Option.not_isSome_iff_eq_none.mp (by simp [← hsome])).symm
  | some v =>
    rw [h] at hsome hget
    obtain ⟨v', hv'⟩ := Option.isSome_iff_exists.mp (hsome.mp rfl)
    rw [hv'] at hget ⊢
    exact congrArg some hget

/-- Raising by the pairs of a map depends on its lookups only. -/
theorem lookup_raiseAll_pairs {m m' c : MaxMap κ} (h : ∀ k, m.lookup k = m'.lookup k) (k : κ) :
    (c.raiseAll m.pairs).lookup k = (c.raiseAll m'.pairs).lookup k := by
  have hmem : ∀ e, e ∈ m.pairs ↔ e ∈ m'.pairs := fun e => by rw [mem_pairs, mem_pairs, h]
  refine lookup_ext ?_ (Nat.le_antisymm ?_ ?_)
  · simp only [isSome_lookup_raiseAll, hmem]
  · refine get_raiseAll_le.mpr ⟨get_le_get_raiseAll .., fun e he hk => ?_⟩
    exact hk ▸ le_get_raiseAll c ((hmem e).mp he)
  · refine get_raiseAll_le.mpr ⟨get_le_get_raiseAll .., fun e he hk => ?_⟩
    exact hk ▸ le_get_raiseAll c ((hmem e).mpr he)

/-- An empty map that is raised by the pairs of another one has the same lookups. -/
theorem lookup_raiseAll_empty (m : MaxMap κ) (k : κ) :
    ((∅ : MaxMap κ).raiseAll m.pairs).lookup k = m.lookup k := by
  refine lookup_ext ?_ (Nat.le_antisymm ?_ ?_)
  · rw [isSome_lookup_raiseAll, Option.isSome_iff_exists (x := m.lookup k)]
    constructor
    · rintro (hnone | ⟨e, he, rfl⟩)
      · cases hnone
      · exact ⟨e.2, mem_pairs.mp he⟩
    · rintro ⟨v, hv⟩
      exact .inr ⟨(k, v), mem_pairs.mpr hv, rfl⟩
  · refine get_raiseAll_le.mpr ⟨Nat.zero_le _, fun e he hk => ?_⟩
    rw [← hk, get_of_lookup (mem_pairs.mp he)]
  · exact get_le fun v hv => le_get_raiseAll ∅ (e := (k, v)) (mem_pairs.mpr hv)

theorem floor_le (h : m.lookup k = some v) : m.floor ≤ v := by
  have hmem : v ∈ m.entries.map Sigma.snd :=
    List.mem_map.mpr ⟨⟨k, v⟩, AList.mem_lookup_iff.mp h, rfl⟩
  unfold floor
  cases hmin : (m.entries.map Sigma.snd).min? with
  | none =>
    rw [List.min?_eq_none_iff] at hmin
    rw [hmin] at hmem
    cases hmem
  | some w => exact (List.min?_eq_some_iff.mp hmin).2 v hmem

/-- The floor of a map that is not empty is one of its values. -/
theorem exists_lookup_floor (h : m.floor ≠ 0) : ∃ k, m.lookup k = some m.floor := by
  unfold floor at h ⊢
  cases hmin : (m.entries.map Sigma.snd).min? with
  | none => rw [hmin] at h; exact absurd rfl h
  | some w =>
    obtain ⟨⟨k, v⟩, hmem, hv⟩ := List.mem_map.mp (List.min?_eq_some_iff.mp hmin).1
    subst hv
    exact ⟨k, AList.mem_lookup_iff.mpr hmem⟩

/-- The pairs of a map, put into another one, replace what it has under their keys. -/
theorem lookup_foldl_insert (hnd : (es.map Prod.fst).Nodup) (m : MaxMap κ) :
    (es.foldl (fun m e => m.insert e.1 e.2) m).lookup k = some v ↔
      (k, v) ∈ es ∨ (∀ e ∈ es, e.1 ≠ k) ∧ m.lookup k = some v := by
  induction es generalizing m with
  | nil => simp
  | cons e es ih =>
    obtain ⟨hnotin, hnd⟩ := List.nodup_cons.mp hnd
    have hother : e.1 = k → ∀ e' ∈ es, e'.1 ≠ k := fun he e' he' heq =>
      hnotin (List.mem_map.mpr ⟨e', he', heq.trans he.symm⟩)
    rw [List.foldl_cons, ih hnd, lookup_insert_eq, List.mem_cons, List.forall_mem_cons]
    by_cases hk : e.1 = k
    · have hfree : (k, v) ∉ es := fun hmem => hother hk _ hmem rfl
      simp only [hfree, hk, false_or, or_false, ne_eq, not_true_eq_false, false_and, if_true,
        Option.some.injEq]
      constructor
      · rintro ⟨-, rfl⟩
        exact Prod.ext hk.symm rfl
      · rintro rfl
        exact ⟨hother rfl, rfl⟩
    · have hne : (k, v) ≠ e := fun he => hk (by rw [← he])
      have hne' : ¬ k = e.1 := fun he => hk he.symm
      simp [hne, hne', hk]

omit [DecidableEq κ] in
theorem nodup_pairs (m : MaxMap κ) : (m.pairs.map Prod.fst).Nodup := by
  rw [pairs, List.map_map]
  exact List.nodupKeys_iff_pairwise.mp m.nodupKeys |>.map _ (fun _ _ h => h)

/-- A map that is filled with the pairs of another one has the same lookups. -/
theorem lookup_fill (m : MaxMap κ) (k : κ) :
    (m.pairs.foldl (fun m e => m.insert e.1 e.2) (∅ : MaxMap κ)).lookup k = m.lookup k := by
  refine Option.ext fun v => ?_
  rw [lookup_foldl_insert m.nodup_pairs, mem_pairs]
  simp

end MaxMap

end BlipMQ
