import BlipMQ.Core.Interleaved

/-!
# Broker — what interleaved calls keep

A subscription whose registration or removal is under way is in some of the
structures and not in others. How often it is in a place is one for the record
that names the place, and one for every call that has put it there without the
record or has taken the record and not the entry. Such shares are weights on
calls; no two calls have a share in the same subscription. A call that has
returned has none, so in the end the registries agree.
-/

namespace BlipMQ.Core

namespace Call

/-! ## The shares of a call -/

/-- The call has given `x` its number and not yet its record. -/
def joins (x : Nat) : Call → Nat
  | .enlist y _ | .place y _ | .store y _ => if y = x then 1 else 0
  | _ => 0

/-- The call has taken the record of `x`. -/
def leaves (x : Nat) : Call → Nat
  | .take _ taken _ => (taken.map Prod.fst).count x
  | .unplace gone todo _ => gone.count x + (todo.map Prod.fst).count x
  | .disconnect y => if y = x then 1 else 0
  | .unlist removed => removed.count x
  | _ => 0

def claims (x : Nat) (c : Call) : Nat := c.joins x + c.leaves x

/-- `x` is in the place and has no record: the call writes it next or has taken it. -/
def holds (x : Nat) (home : SubscriptionRef) : Call → Nat
  | .store y j => if y = x ∧ j.home = home then 1 else 0
  | .take _ taken _ => taken.count (x, home)
  | .unplace _ todo _ => todo.count (x, home)
  | _ => 0

/-- The call will list `x` among the wildcards. -/
def lists (x : Nat) : Call → Nat
  | .enlist y j | .place y j | .store y j => if y = x ∧ j.wildcard.isSome then 1 else 0
  | .connect y _ wildcard => if y = x ∧ wildcard.isSome then 1 else 0
  | .list y _ => if y = x then 1 else 0
  | _ => 0

theorem holds_le_claims (x : Nat) (home : SubscriptionRef) (c : Call) :
    c.holds x home ≤ c.claims x := by
  have hcount (l : List (Nat × SubscriptionRef)) : l.count (x, home) ≤ (l.map Prod.fst).count x :=
    List.count_le_count_map (f := Prod.fst) (x := (x, home))
  cases c with
  | store y j =>
    simp only [holds, claims, joins, leaves]
    split <;> split <;> simp_all
  | take ids taken one => exact (hcount taken).trans (Nat.le_add_left _ _)
  | unplace gone todo one =>
    have hle := hcount todo
    simp only [holds, claims, joins, leaves]
    omega
  | _ => exact Nat.zero_le _

end Call

/-! ## What a step makes of the shares -/

namespace Registry

variable (r : Registry) (x y : Nat) (home home' : SubscriptionRef)

def count (x : Nat) (home : SubscriptionRef) : Nat := (r.members home.topic home.group).count x

/-- One if the record of `x` names the place. -/
def names (x : Nat) (home : SubscriptionRef) : Nat :=
  if r.subscriptions x = some home then 1 else 0

/-- One if `x` has a record. -/
def live (x : Nat) : Nat := if (r.subscriptions x).isSome then 1 else 0

def listed (x : Nat) : Nat := (r.wildcards.map Prod.snd).count x

theorem names_le_live : r.names x home ≤ r.live x := by
  simp only [names, live]
  split <;> simp_all

theorem count_place : (r.place x home).count y home' =
    r.count y home' + if x = y ∧ home = home' then 1 else 0 := by
  show (if home' = home then _ else _ : List Nat).count y = _
  by_cases hhome : home = home'
  · simp [hhome, count, List.count_append, List.count_singleton]
  · rw [if_neg (Ne.symm hhome), if_neg fun h => hhome h.2]
    rfl

theorem count_unplace : (r.unplace x home).count y home' =
    if x = y ∧ home = home' then 0 else r.count y home' := by
  show (if home' = home then _ else _ : List Nat).count y = _
  by_cases hhome : home = home'
  · subst hhome
    by_cases hxy : x = y
    · simp [hxy, List.count_eq_zero]
    · rw [if_pos rfl, if_neg fun h => hxy h.1]
      exact List.count_filter (by simpa using Ne.symm hxy)
  · rw [if_neg (Ne.symm hhome), if_neg fun h => hhome h.2]
    rfl

end Registry

/-- What a call passes on of its shares, numbers that are given out apart. -/
structure Shares (r r' : Registry) (c c' : Call) : Prop where
  nextId : r'.nextId = r.nextId
  counted : r.wildcardsLen = r.wildcards.length → r'.wildcardsLen = r'.wildcards.length
  joins : ∀ x, c'.joins x ≤ c.joins x
  stored : ∀ x, r'.live x ≤ r.live x + c.joins x
  claims : ∀ x, r'.live x + c'.claims x ≤ r.live x + c.claims x
  lists : ∀ x, r'.listed x + c'.lists x ≤ r.listed x + c.lists x
  wildcards : ∀ p ∈ r.wildcards, p ∈ r'.wildcards ∨ 0 < c.leaves p.2

section Shares

variable {ahash : Bytes → Nat} {r : Registry} {c c' : Call} {sh sh' : Shared} {x : Nat}

/-- A critical section that changes no record and no wildcard. -/
theorem Shares.aside {members : String → Option String → List Nat} {connections : Nat → List Nat}
    (h : ∀ x, c'.joins x ≤ c.joins x ∧ c'.leaves x ≤ c.leaves x ∧ c'.lists x ≤ c.lists x) :
    Shares r { r with members := members, connections := connections } c c' where
  nextId := rfl
  counted := id
  joins x := (h x).1
  stored _ := Nat.le_add_right _ _
  claims x := Nat.add_le_add_left (Nat.add_le_add (h x).1 (h x).2.1) _
  lists x := Nat.add_le_add_left (h x).2.2 _
  wildcards _ := .inl

theorem Call.next_shares (h : c.next ahash sh = some (sh', c')) (hc : ∀ j, c ≠ .number j) :
    Shares sh.registry sh'.registry c c' := by
  cases c with
  | getOrInsert j | enlist y j | place y j =>
    cases h
    exact .aside fun x => ⟨le_rfl, le_rfl, le_rfl⟩
  | number j => exact absurd rfl (hc j)
  | store y j =>
    cases h
    have hafter : ∀ x, (afterStore y j).joins x = 0 ∧ (afterStore y j).claims x = 0 ∧
        (afterStore y j).lists x ≤ (Call.store y j).lists x := by
      obtain ⟨_, _ | d, _ | p⟩ := j <;>
        simp [afterStore, afterConnect, claims, joins, leaves, lists]
    have hstored : ∀ x, (sh.registry.store y j.home).live x ≤
        sh.registry.live x + (Call.store y j).joins x := by
      intro x
      by_cases hxy : x = y
      · simp [Registry.live, Registry.store, joins, hxy]
      · simp [Registry.live, Registry.store, hxy]
    refine ⟨rfl, id, fun x => ?_, hstored, fun x => ?_, fun x => ?_, fun _ => .inl⟩
    · exact (hafter x).1 ▸ Nat.zero_le _
    · rw [(hafter x).2.1]
      exact hstored x
    · exact Nat.add_le_add_left (hafter x).2.2 _
  | connect y d wildcard =>
    cases h
    refine .aside fun x => ?_
    cases wildcard <;> simp [afterConnect, joins, leaves, lists]
  | list y pattern =>
    cases h
    refine ⟨rfl, fun _ => ?_, fun _ => le_rfl, fun _ => le_rfl, fun _ => le_rfl, fun x => ?_,
      fun p hp => .inl (List.mem_append_left _ hp)⟩
    · simp [Registry.list]
    · simp [Registry.listed, Registry.list, lists, List.count_singleton]
  | close d =>
    cases h
    exact .aside fun x => ⟨le_rfl, le_rfl, le_rfl⟩
  | take ids taken one =>
    cases ids with
    | nil =>
      cases h
      exact .aside fun x => ⟨le_rfl, by simp [leaves], le_rfl⟩
    | cons y ids =>
      simp only [next] at h
      split at h <;> cases h
      · exact .aside fun x => ⟨le_rfl, le_rfl, le_rfl⟩
      · rename_i hy
        refine ⟨rfl, id, fun _ => le_rfl, fun x => ?_, fun x => ?_, fun _ => le_rfl,
          fun _ => .inl⟩ <;>
          by_cases hxy : x = y <;>
          simp [Registry.live, Registry.discard, claims, joins, leaves, hxy, hy, Ne.symm,
            Nat.add_comm]
  | unplace gone todo one =>
    cases todo with
    | nil =>
      cases h
      refine .aside fun x => ?_
      cases gone <;> cases one <;> simp [afterUnplace, joins, leaves, lists, List.count_cons]
    | cons p todo =>
      cases h
      have hleaves : ∀ x, leaves x (.unplace (gone ++ [p.1]) todo one) ≤
          leaves x (.unplace gone (p :: todo) one) := by
        intro x
        simp only [leaves, List.count_append, List.map_cons, List.count_cons, List.count_nil]
        omega
      split <;> exact .aside fun x => ⟨le_rfl, hleaves x, le_rfl⟩
  | disconnect y =>
    cases h
    exact .aside fun x => ⟨le_rfl, by simp [leaves, List.count_singleton], le_rfl⟩
  | unlist removed =>
    cases h
    refine ⟨rfl, fun _ => rfl, fun _ => le_rfl, fun _ => le_rfl, fun x => ?_, fun x => ?_,
      fun p hp => ?_⟩
    · exact Nat.add_le_add_left (Nat.zero_le _) _
    · exact (List.filter_sublist.map Prod.snd).count_le x
    · by_cases hx : p.2 ∈ removed
      · exact .inr (List.count_pos_iff.mpr hx)
      · exact .inl (List.mem_filter.mpr ⟨hp, decide_eq_true hx⟩)
  | publish p =>
    obtain ⟨⟨sh', p'⟩, hp, heq⟩ := Option.map_eq_some_iff.mp h
    obtain ⟨-, -, turns, -, rfl, -⟩ := Reading.next_some hp
    cases heq
    exact .aside fun x => ⟨le_rfl, le_rfl, le_rfl⟩
  | done => cases h

end Shares

/-! ## Topics and groups are there before their members -/

/-- What a call under way has made sure of. -/
def Call.Prepared (s : Shared) : Call → Prop
  | .number j | .enlist _ j => j.home.topic ∈ s.topics
  | .place _ j => s.knows j.home = true
  | _ => True

structure Known (s : Interleaved) : Prop where
  members : ∀ (home : SubscriptionRef) (x : Nat),
    x ∈ s.shared.registry.members home.topic home.group → s.shared.knows home = true
  nodup : ∀ t, (s.shared.groups t).Nodup
  prepared : ∀ c ∈ s.calls, c.Prepared s.shared

/-- Topics and groups are added and never removed. -/
structure Shared.Grows (s s' : Shared) : Prop where
  topics : s.topics ⊆ s'.topics
  groups : ∀ t, s.groups t ⊆ s'.groups t
  nodup : ∀ t, (s.groups t).Nodup → (s'.groups t).Nodup

section Known

variable {s : Interleaved} {sh : Shared} {home : SubscriptionRef} {i : Nat} {c' : Call}

theorem Shared.knows_iff (s : Shared) : s.knows home = true ↔
    home.topic ∈ s.topics ∧ ∀ g, home.group = some g → g ∈ s.groups home.topic := by
  simp [Shared.knows, Option.all_eq_true]

theorem Shared.Grows.knows (hg : s.shared.Grows sh) (h : s.shared.knows home = true) :
    sh.knows home = true := by
  rw [Shared.knows_iff] at h ⊢
  exact ⟨hg.topics h.1, fun g hgroup => hg.groups _ (h.2 g hgroup)⟩

/-- A member was there before, or its place is known. -/
theorem Known.next (h : Known s) (hg : s.shared.Grows sh)
    (hmembers : ∀ (home : SubscriptionRef) (x : Nat),
      x ∈ sh.registry.members home.topic home.group →
      x ∈ s.shared.registry.members home.topic home.group ∨ sh.knows home = true)
    (hc' : c'.Prepared sh) : Known ⟨sh, s.calls.set i c'⟩ := by
  refine ⟨fun home x hx => ?_, fun t => hg.nodup t (h.nodup t), fun c hc => ?_⟩
  · rcases hmembers home x hx with hold | hnew
    · exact hg.knows (h.members home x hold)
    · exact hnew
  · rcases List.mem_or_eq_of_mem_set hc with hold | rfl
    · have hprepared := h.prepared c hold
      cases c with
      | number | enlist => exact hg.topics hprepared
      | place => exact hg.knows hprepared
      | _ => trivial
    · exact hc'

end Known

/-! ## Each subscription in one place -/

/-- How often a subscription is in a place. -/
def Placed (r : Registry) (calls : List Call) : Prop :=
  ∀ x home, r.count x home = r.names x home + total (Call.holds x home) calls

structure Sound (s : Interleaved) : Prop where
  known : Known s
  placed : Placed s.shared.registry s.calls
  claimed : Once s.shared.registry.live Call.claims (s.shared.registry.nextId ≤ ·) s.calls
  listed : Once s.shared.registry.listed Call.lists (s.shared.registry.nextId ≤ ·) s.calls
  counted : s.shared.registry.wildcardsLen = s.shared.registry.wildcards.length

section Sound

variable {ahash : Bytes → Nat} {s : Interleaved} {r : Registry} {calls : List Call}
  {out : Nat → Prop} {sh : Shared} {i x : Nat} {c c' : Call} {home : SubscriptionRef}

theorem Placed.step {r' : Registry} (h : Placed r calls) (hc : calls[i]? = some c)
    (hmove : ∀ x home, r'.count x home + r.names x home + c.holds x home =
      r.count x home + r'.names x home + c'.holds x home) : Placed r' (calls.set i c') := by
  intro x home
  have hset := total_set (Call.holds x home) hc c'
  have hold := h x home
  have hnew := hmove x home
  omega

theorem Placed.place (h : Placed r calls) {j : Joining} (hc : calls[i]? = some (.place x j)) :
    Placed (r.place x j.home) (calls.set i (.store x j)) := by
  refine h.step hc fun y home => ?_
  have hcount := r.count_place x y j.home home
  show _ + r.names y home + 0 = _ + r.names y home + if x = y ∧ j.home = home then 1 else 0
  omega

theorem Placed.store (h : Placed r calls) (hclaimed : Once r.live Call.claims out calls)
    {j : Joining} (hc : calls[i]? = some (.store x j)) :
    Placed (r.store x j.home) (calls.set i (Call.afterStore x j)) := by
  have hdead := (hclaimed.own hc (x := x) (by simp [Call.claims, Call.joins])).1
  refine h.step hc fun y home => ?_
  have hholds : (Call.afterStore x j).holds y home = 0 := by
    obtain ⟨_, _ | d, _ | p⟩ := j <;> rfl
  show r.count y home + _ + _ = r.count y home + _ + _
  rw [hholds]
  by_cases hxy : y = x
  · subst hxy
    simp_all [Registry.names, Registry.live, Registry.store, Call.holds]
  · simp [Registry.names, Registry.store, Call.holds, hxy, Ne.symm hxy]

/-- The record is taken by a call that had no share in the subscription. -/
theorem Placed.discard (h : Placed r calls) {ids : List Nat}
    {taken : List (Nat × SubscriptionRef)} {one : Bool}
    (hc : calls[i]? = some (.take (x :: ids) taken one)) (hx : r.subscriptions x = some home) :
    Placed (r.discard x) (calls.set i (.take ids (taken ++ [(x, home)]) one)) := by
  refine h.step hc fun y home' => ?_
  show r.count y home' + _ + _ = r.count y home' + _ + _
  by_cases hxy : y = x
  · subst hxy
    simp only [Registry.names, Registry.discard, hx, Option.some.injEq, Call.holds, ↓reduceIte,
      reduceCtorEq, List.count_append, List.count_singleton, beq_iff_eq, Prod.mk.injEq, true_and]
    omega
  · simp [Registry.names, Registry.discard, Call.holds, hxy, Ne.symm hxy]

/-- The entry is taken by the call that has taken the record. It is the only one. -/
theorem Placed.unplace (h : Placed r calls) (hclaimed : Once r.live Call.claims out calls)
    {taken : List Nat} {todo : List (Nat × SubscriptionRef)} {one : Bool}
    (hc : calls[i]? = some (.unplace taken ((x, home) :: todo) one)) :
    x ∈ r.members home.topic home.group ∧
      Placed (r.unplace x home) (calls.set i (.unplace (taken ++ [x]) todo one)) := by
  have hheld : Call.holds x home (.unplace taken ((x, home) :: todo) one) =
    todo.count (x, home) + 1 := List.count_cons_self
  have hle := Call.holds_le_claims x home (.unplace taken ((x, home) :: todo) one)
  obtain ⟨hdead, hone, -⟩ := hclaimed.own hc (x := x) (by omega)
  have hbound := total_le_total (Call.holds_le_claims x home) calls
  have hown := le_total (Call.holds x home) hc
  have hall := h x home
  have hnames := r.names_le_live x home
  refine ⟨List.count_pos_iff.mp (show 0 < r.count x home by omega), h.step hc fun y home' => ?_⟩
  have hcount := r.count_unplace x y home home'
  show _ + r.names y home' + List.count _ (_ :: _) = _ + r.names y home' + List.count _ _
  by_cases hxy : x = y ∧ home = home'
  · obtain ⟨rfl, rfl⟩ := hxy
    rw [List.count_cons_self]
    rw [if_pos ⟨rfl, rfl⟩] at hcount
    omega
  · rw [if_neg hxy] at hcount
    rw [List.count_cons_of_ne (by simpa using hxy), hcount]

/-- A critical section away from places and records. -/
theorem Sound.aside (h : Sound s) (hc : s.calls[i]? = some c) (hgrows : s.shared.Grows sh)
    (hmembers : sh.registry.members = s.shared.registry.members)
    (hsubs : sh.registry.subscriptions = s.shared.registry.subscriptions)
    (hprepared : c'.Prepared sh) (hholds : ∀ x home, c'.holds x home = c.holds x home) :
    Known ⟨sh, s.calls.set i c'⟩ ∧ Placed sh.registry (s.calls.set i c') := by
  refine ⟨h.known.next hgrows (fun home x hx => .inl (hmembers ▸ hx)) hprepared,
    h.placed.step hc fun x home => ?_⟩
  simp only [Registry.count, Registry.names, hmembers, hsubs, hholds]

theorem Sound.next_places (h : Sound s) (hc : s.calls[i]? = some c)
    (hnext : c.next ahash s.shared = some (sh, c')) :
    Known ⟨sh, s.calls.set i c'⟩ ∧ Placed sh.registry (s.calls.set i c') := by
  have hgrows {r turns} : s.shared.Grows { s.shared with registry := r, turns := turns } :=
    ⟨fun _ => id, fun _ _ => id, fun _ ht => ht⟩
  have hknown := h.known.prepared _ (List.mem_of_getElem? hc)
  cases c with
  | getOrInsert j =>
    cases hnext
    exact h.aside hc ⟨fun _ => List.mem_insert_of_mem, fun _ _ => id, fun _ ht => ht⟩ rfl rfl
      List.mem_insert_self fun _ _ => rfl
  | number j =>
    cases hnext
    cases hg : j.home.group with
    | none =>
      refine h.aside hc hgrows rfl rfl ?_ fun _ _ => rfl
      exact (Shared.knows_iff _).mpr ⟨hknown, fun g hgroup => absurd (hg.symm.trans hgroup) nofun⟩
    | some g => exact h.aside hc hgrows rfl rfl hknown fun _ _ => rfl
  | enlist x j =>
    cases hnext
    refine h.aside hc ⟨fun _ => id, fun t g hg => ?_, fun t hnodup => ?_⟩ rfl rfl
      ((Shared.knows_iff _).mpr ⟨hknown, fun g hgroup => ?_⟩) fun _ _ => rfl
    · cases j.home.group <;> dsimp only [Option.elim] <;> split <;> simp [hg]
    · cases j.home.group <;> dsimp only [Option.elim] <;> split <;>
        first | exact hnodup | exact hnodup.insert
    · simp [hgroup]
  | place x j =>
    cases hnext
    refine ⟨h.known.next hgrows (fun home y hy => ?_) trivial, h.placed.place hc⟩
    change y ∈ (if home = j.home then _ else _) at hy
    split at hy
    · rename_i heq
      subst heq
      exact .inr hknown
    · exact .inl hy
  | store x j =>
    cases hnext
    refine ⟨h.known.next hgrows (fun _ _ => .inl) ?_, h.placed.store h.claimed hc⟩
    obtain ⟨home, _ | d, _ | p⟩ := j <;> trivial
  | connect x d wildcard =>
    cases hnext
    cases wildcard <;> exact h.aside hc hgrows rfl rfl trivial fun _ _ => rfl
  | list | close | disconnect | unlist =>
    cases hnext
    exact h.aside hc hgrows rfl rfl trivial fun _ _ => rfl
  | take ids taken one =>
    cases ids with
    | nil =>
      cases hnext
      exact h.aside hc hgrows rfl rfl trivial fun _ _ => rfl
    | cons x ids =>
      simp only [Call.next] at hnext
      split at hnext <;> cases hnext
      · exact h.aside hc hgrows rfl rfl trivial fun _ _ => rfl
      · exact ⟨h.known.next hgrows (fun _ _ => .inl) trivial, h.placed.discard hc ‹_›⟩
  | unplace taken todo one =>
    cases todo with
    | nil =>
      cases hnext
      cases taken <;> cases one <;>
        exact h.aside hc hgrows rfl rfl trivial fun _ _ => rfl
    | cons p todo =>
      cases hnext
      obtain ⟨hmem, hplaced⟩ := h.placed.unplace h.claimed hc
      rw [if_pos (h.known.members p.2 p.1 hmem)]
      refine ⟨h.known.next hgrows (fun home y hy => .inl ?_) trivial, hplaced⟩
      change y ∈ (if _ then _ else _) at hy
      split at hy
      · exact List.mem_of_mem_filter hy
      · exact hy
  | publish p =>
    obtain ⟨⟨sh', p'⟩, hp, heq⟩ := Option.map_eq_some_iff.mp hnext
    obtain ⟨-, -, turns, -, rfl, -⟩ := Reading.next_some hp
    cases heq
    exact h.aside hc hgrows rfl rfl trivial fun _ _ => rfl
  | done => cases hnext

theorem Sound.next (h : Sound s) (hc : s.calls[i]? = some c)
    (hnext : c.next ahash s.shared = some (sh, c')) : Sound ⟨sh, s.calls.set i c'⟩ := by
  obtain ⟨hknown, hplaced⟩ := h.next_places hc hnext
  by_cases hnumber : ∃ j, c = .number j
  · obtain ⟨j, rfl⟩ := hnumber
    cases hnext
    -- the number that is given out was nobody's
    have hnew : ∀ {n a : Nat} x, a ≤ (if s.shared.registry.nextId = x then 1 else 0) →
        n + a ≤ n + 0 ∨ s.shared.registry.nextId ≤ x ∧ ¬ s.shared.registry.nextId + 1 ≤ x ∧
          n + a ≤ n + 0 + 1 := by
      intro n a x ha
      split at ha <;> omega
    refine ⟨hknown, hplaced, h.claimed.set hc (fun x => Nat.le_of_succ_le) fun x => hnew x ?_,
      h.listed.set hc (fun x => Nat.le_of_succ_le) fun x => hnew x ?_, h.counted⟩
    · cases j.home.group <;> exact le_rfl
    · cases j.home.group <;> dsimp only [Call.lists] <;> split <;> split <;> simp_all
  · have hshares := Call.next_shares hnext fun j hj => hnumber ⟨j, hj⟩
    have hout : ∀ x, sh.registry.nextId ≤ x → s.shared.registry.nextId ≤ x :=
      fun x hx => hshares.nextId ▸ hx
    exact ⟨hknown, hplaced, h.claimed.set hc hout fun x => .inl (hshares.claims x),
      h.listed.set hc hout fun x => .inl (hshares.lists x), hshares.counted h.counted⟩

theorem Sound.start (h : Sound s) (request : Request) :
    Sound { s with calls := s.calls ++ [request.call] } := by
  have hzero : (∀ x home, request.call.holds x home = 0) ∧ (∀ x, request.call.claims x = 0) ∧
      (∀ x, request.call.lists x = 0) ∧ request.call.Prepared s.shared := by
    cases request <;> exact ⟨fun _ _ => rfl, fun _ => rfl, fun _ => rfl, trivial⟩
  obtain ⟨hholds, hclaims, hlists, hprepared⟩ := hzero
  refine ⟨⟨h.known.members, h.known.nodup, forall_mem_concat h.known.prepared hprepared⟩,
    fun x home => ?_, h.claimed.concat hclaims, h.listed.concat hlists, h.counted⟩
  rw [total_concat, hholds]
  exact h.placed x home

theorem Sound.new : Sound .new :=
  ⟨⟨nofun, fun _ => List.nodup_nil, nofun⟩, fun _ _ => rfl,
    ⟨fun _ => Nat.zero_le _, fun _ _ => rfl⟩, ⟨fun _ => Nat.zero_le _, fun _ _ => rfl⟩, rfl⟩

theorem Sound.run {s' : Interleaved} {as : List Move} (h : Sound s)
    (hrun : run (Interleaved.step ahash) s as = some s') : Sound s' :=
  run_invariant_of_meets
    (Interleaved.step_invariant ahash (fun _ request h => h.start request)
      fun _ _ _ _ _ h _ hc hnext => h.next hc hnext)
    h (meets_true s as) hrun

end Sound

/-! ## When all calls have returned -/

/-- The call has returned, or is a publish that has its snapshot. -/
def Call.ended : Call → Bool
  | .done => true
  | .publish p => p.todo = []
  | _ => false

def Interleaved.Quiet (s : Interleaved) : Prop := ∀ c ∈ s.calls, c.ended = true

instance Interleaved.Quiet.decidable (s : Interleaved) : Decidable s.Quiet :=
  inferInstanceAs (Decidable (∀ c ∈ s.calls, c.ended = true))

section Quiet

variable {ahash : Bytes → Nat} {s : Interleaved}

/-- A call that has returned has no share in anything. -/
theorem Interleaved.Quiet.total_eq_zero (h : s.Quiet) {w : Call → Nat} (hdone : w .done = 0)
    (hpublish : ∀ p, w (.publish p) = 0) : total w s.calls = 0 := by
  refine BlipMQ.total_eq_zero fun c hc => ?_
  have hended := h c hc
  unfold Call.ended at hended
  split at hended
  · exact hdone
  · exact hpublish _
  · cases hended

theorem Sound.count_of_quiet (h : Sound s) (hquiet : s.Quiet) (x : Nat)
    (home : SubscriptionRef) :
    s.shared.registry.count x home = s.shared.registry.names x home := by
  rw [h.placed x home, hquiet.total_eq_zero rfl fun _ => rfl]
  rfl

/-- **Calls side by side leave the registries in agreement.** When all calls have
returned, every subscription with a record is once in the place its record names,
and nobody is in any other place. At all times a subscription is at most once among
the wildcards, and the stored length is that of the list. -/
theorem registries_agree_at_rest {as : List Move}
    (hrun : run (Interleaved.step ahash) .new as = some s) :
    (s.Quiet → ∀ x t g, (s.shared.registry.members t g).count x =
      if s.shared.registry.subscriptions x = some ⟨t, g⟩ then 1 else 0) ∧
    (s.shared.registry.wildcards.map Prod.snd).Nodup ∧
    s.shared.registry.wildcardsLen = s.shared.registry.wildcards.length := by
  have hsound := Sound.new.run hrun
  refine ⟨fun hquiet x t g => hsound.count_of_quiet hquiet x ⟨t, g⟩,
    List.nodup_iff_count_le_one.mpr fun x => ?_, hsound.counted⟩
  exact (Nat.le_add_right _ _).trans (hsound.listed.le_one x)

/-- A broadcast and a grouped subscribe on connection 7, in turns. -/
def racingSubscribes : List Move :=
  [.start (.subscribe ⟨⟨"t", none⟩, some 7, none⟩),
    .start (.subscribe ⟨⟨"t", some "g"⟩, some 7, none⟩)] ++
  [1, 0, 0, 1, 1, 0, 1, 0, 1, 0, 1].map .advance

theorem registries_agree_racing : ∃ s : Interleaved,
    run (Interleaved.step fun _ => 0) .new racingSubscribes = some s ∧ s.Quiet ∧
      (s.shared.registry.members "t" (some "g")).count 2 = 1 := by
  obtain ⟨s, hs, hquiet, hrecord⟩ :
      ∃ s ∈ run (Interleaved.step fun _ => 0) .new racingSubscribes,
        s.Quiet ∧ s.shared.registry.subscriptions 2 = some ⟨"t", some "g"⟩ := by
    decide +kernel
  refine ⟨s, hs, hquiet, ?_⟩
  rw [(registries_agree_at_rest hs).1 hquiet, if_pos hrecord]

end Quiet

/-! ## Subscriptions that are gone -/

section Gone

variable {ahash : Bytes → Nat} {s s' : Interleaved} {i x : Nat}

/-- A number that has been given out is not given out again. -/
theorem Call.next_given {sh sh' : Shared} {c c' : Call} (h : c.next ahash sh = some (sh', c'))
    (hx : x < sh.registry.nextId) : x < sh'.registry.nextId ∧ c'.joins x ≤ c.joins x ∧
      sh'.registry.live x ≤ sh.registry.live x + c.joins x ∧
      sh'.registry.live x + c'.claims x ≤ sh.registry.live x + c.claims x ∧
      ∀ p ∈ sh.registry.wildcards, p ∈ sh'.registry.wildcards ∨ 0 < c.leaves p.2 := by
  by_cases hnumber : ∃ j, c = .number j
  · obtain ⟨j, rfl⟩ := hnumber
    cases h
    refine ⟨Nat.lt_succ_of_lt hx, ?_, le_rfl, Nat.add_le_add_left ?_ _, fun _ => .inl⟩ <;>
      cases j.home.group <;> simp [claims, joins, leaves, hx.ne']
  · have hshares := Call.next_shares h fun j hj => hnumber ⟨j, hj⟩
    exact ⟨hshares.nextId.symm ▸ hx, hshares.joins x, hshares.stored x, hshares.claims x,
      hshares.wildcards⟩

/-- The entry is listed and nobody has a share in its subscription. -/
def Stale (p : SubjectPattern × Nat) (s : Interleaved) : Prop :=
  p.2 < s.shared.registry.nextId ∧
    s.shared.registry.live p.2 + total (Call.claims p.2) s.calls = 0 ∧
    p ∈ s.shared.registry.wildcards

/-- **A stale wildcard entry is never removed.** When all calls have returned and the
list of wildcards names a subscription without a record, it names it in every later
state, and every publish goes on walking the list. -/
theorem stale_wildcard_stays {as bs : List Move} {p : SubjectPattern × Nat}
    (hreach : run (Interleaved.step ahash) .new as = some s) (hquiet : s.Quiet)
    (hp : p ∈ s.shared.registry.wildcards)
    (hstale : s.shared.registry.subscriptions p.2 = none)
    (hrun : run (Interleaved.step ahash) s bs = some s') :
    p ∈ s'.shared.registry.wildcards ∧ s'.shared.registry.subscriptions p.2 = none ∧
      0 < s'.shared.registry.wildcardsLen := by
  have hsound := Sound.new.run hreach
  have hgiven : p.2 < s.shared.registry.nextId := by
    by_contra hge
    have hnone := hsound.listed.eq_zero p.2 (Nat.le_of_not_lt hge)
    have hpos : 0 < s.shared.registry.listed p.2 :=
      List.count_pos_iff.mpr (List.mem_map_of_mem (f := Prod.snd) hp)
    omega
  have hdead : s.shared.registry.live p.2 + total (Call.claims p.2) s.calls = 0 := by
    rw [hquiet.total_eq_zero rfl fun _ => rfl, Registry.live, hstale]
    rfl
  obtain ⟨-, hzero, hmem⟩ : Stale p s' := by
    refine run_invariant_of_meets (Interleaved.step_invariant ahash ?_ ?_) ⟨hgiven, hdead, hp⟩
      (meets_true s bs) hrun
    · rintro s request ⟨hlt, hzero, hmem⟩
      refine ⟨hlt, ?_, hmem⟩
      rw [total_concat, show request.call.claims p.2 = 0 by cases request <;> rfl]
      exact hzero
    · rintro s j c sh c' ⟨hlt, hzero, hmem⟩ - hc hnext
      obtain ⟨hlt', -, -, hclaims, hstays⟩ := Call.next_given hnext hlt
      have hset := total_set (Call.claims p.2) hc c'
      have hshare := le_total (Call.claims p.2) hc
      refine ⟨hlt', show sh.registry.live p.2 + total _ (s.calls.set j c') = 0 by omega,
        (hstays p hmem).resolve_right fun hleaves => ?_⟩
      have hle : c.leaves p.2 ≤ c.claims p.2 := Nat.le_add_left _ _
      omega
  refine ⟨hmem, ?_, (hsound.run hrun).counted ▸ List.length_pos_of_mem hmem⟩
  by_contra hrecord
  simp [Registry.live, Option.isSome_iff_ne_none.mpr hrecord] at hzero

/-- A subscribe to `a.*` on connection 7: its subscription is dropped when it has its
record and is under its connection, and is listed after that. -/
def overtaken : List Move :=
  .start (.subscribe ⟨⟨"a.*", none⟩, some 7, some ⟨"a.*", [.literal "a", .wildcard], false⟩⟩) ::
    [0, 0, 0, 0, 0].map .advance ++
  .start (.unsubscribeOne 1) :: [1, 1, 1, 1, 1, 1, 0].map .advance

theorem stale_wildcard_stays_overtaken : ∃ s s' : Interleaved,
    run (Interleaved.step fun _ => 0) .new overtaken = some s ∧
    run (Interleaved.step fun _ => 0) s
      (.start (.unsubscribeConnection 7) :: [2, 2].map .advance) = some s' ∧
    0 < s'.shared.registry.wildcardsLen := by
  obtain ⟨s, hs, hquiet, p, hp, hstale, s', hs', -⟩ :
      ∃ s ∈ run (Interleaved.step fun _ => 0) .new overtaken,
        s.Quiet ∧ ∃ p ∈ s.shared.registry.wildcards,
          s.shared.registry.subscriptions p.2 = none ∧
          ∃ s' ∈ run (Interleaved.step fun _ => 0) s
            (.start (.unsubscribeConnection 7) :: [2, 2].map .advance), True := by
    decide +kernel
  exact ⟨s, s', hs, hs', (stale_wildcard_stays hs hquiet hp hstale hs').2.2⟩

/-- Call `i` has yet to take the record of `x`, or there is none. -/
def Forgetting (i x : Nat) (s : Interleaved) : Prop :=
  x < s.shared.registry.nextId ∧ total (Call.joins x) s.calls = 0 ∧
    (s.shared.registry.live x = 0 ∨
      ∃ ids taken, s.calls[i]? = some (.take ids taken false) ∧ x ∈ ids)

theorem Forgetting.next {sh : Shared} {c c' : Call} {j : Nat} (h : Forgetting i x s)
    (hc : s.calls[j]? = some c) (hnext : c.next ahash s.shared = some (sh, c')) :
    Forgetting i x ⟨sh, s.calls.set j c'⟩ := by
  obtain ⟨hlt, hjoins, htakes⟩ := h
  obtain ⟨hlt', hjoins', hstored, -⟩ := Call.next_given hnext hlt
  have hset := total_set (Call.joins x) hc c'
  have hshare := le_total (Call.joins x) hc
  refine ⟨hlt', show total _ (s.calls.set j c') = 0 by omega, ?_⟩
  rcases htakes with hdead | ⟨ids, taken, hi, hx⟩
  · exact .inl (show sh.registry.live x = 0 by omega)
  by_cases hij : j = i
  · subst hij
    obtain rfl := Option.some.inj (hi.symm.trans hc)
    obtain ⟨y, ids, rfl⟩ := List.exists_cons_of_ne_nil (List.ne_nil_of_mem hx)
    have hself := fun c' => List.getElem?_set_self (a := c') (List.getElem?_eq_some_iff.mp hc).1
    simp only [Call.next] at hnext
    rcases List.mem_cons.mp hx with rfl | hx
    · left
      split at hnext <;> cases hnext <;> simp_all [Registry.live, Registry.discard]
    · split at hnext <;> cases hnext <;> exact .inr ⟨ids, _, hself _, hx⟩
  · exact .inr ⟨ids, taken, (List.getElem?_set_ne hij).trans hi, hx⟩

theorem Forgetting.run {as : List Move} (h : Forgetting i x s)
    (hrun : run (Interleaved.step ahash) s as = some s') : Forgetting i x s' := by
  refine run_invariant_of_meets (Interleaved.step_invariant ahash ?_ ?_) h (meets_true s as) hrun
  · rintro s request ⟨hlt, hjoins, htakes⟩
    refine ⟨hlt, ?_, htakes.imp_right fun ⟨ids, taken, hi, hx⟩ => ⟨ids, taken, ?_, hx⟩⟩
    · rw [total_concat, show request.call.joins x = 0 by cases request <;> rfl]
      exact hjoins
    · rw [List.getElem?_append_left (List.getElem?_eq_some_iff.mp hi).1]
      exact hi
  · exact fun _ _ _ _ _ h _ hc hnext => h.next hc hnext

/-- **A connection that ends is forgotten.** Whatever runs between the critical sections
of `unsubscribe_connection`, once it has returned no subscription that the connection
had has a record, and when the others have returned too none is in any place. -/
theorem ended_connection_forgotten {as bs : List Move} {c : Nat}
    (hreach : run (Interleaved.step ahash) .new as = some s)
    (hcall : s.calls[i]? = some (.close c)) (hx : x ∈ s.shared.registry.connections c)
    (hlive : (s.shared.registry.subscriptions x).isSome)
    (hrun : run (Interleaved.step ahash) s (.advance i :: bs) = some s')
    (hend : s'.calls[i]? = some .done) :
    s'.shared.registry.subscriptions x = none ∧
      (s'.Quiet → ∀ t g, x ∉ s'.shared.registry.members t g) := by
  have hsound := Sound.new.run hreach
  have hone := hsound.claimed.le_one x
  have hrecord : s.shared.registry.live x = 1 := if_pos hlive
  obtain ⟨s₁, hstep, hrest⟩ := run_cons.mp hrun
  have hbegun : Forgetting i x s₁ := by
    rw [Interleaved.step, hcall] at hstep
    cases hstep
    refine ⟨?_, ?_, .inr ⟨_, _, List.getElem?_set_self (List.getElem?_eq_some_iff.mp hcall).1, hx⟩⟩
    · by_contra hge
      have hnone := hsound.claimed.eq_zero x (Nat.le_of_not_lt hge)
      omega
    · have hle : total (Call.joins x) s.calls ≤ total (Call.claims x) s.calls :=
        total_le_total (fun c => Nat.le_add_right _ _) s.calls
      have hset : total (Call.joins x) (s.calls.set i _) + 0 = _ + 0 := total_set _ hcall
        (.take (s.shared.registry.connections c) [] false)
      exact hset.trans (by omega)
  have hnone : s'.shared.registry.subscriptions x = none := by
    obtain ⟨-, -, hdead | ⟨ids, taken, hi, -⟩⟩ := hbegun.run hrest
    · simpa [Registry.live] using hdead
    · rw [hend] at hi
      cases hi
  refine ⟨hnone, fun hquiet t g => List.count_eq_zero.mp ?_⟩
  refine ((hsound.run hrun).count_of_quiet hquiet x ⟨t, g⟩).trans ?_
  simp [Registry.names, hnone]

/-- Connection 7 ends, and subscription 2 is dropped on its own at the same time. -/
def connectionEnds : List Move :=
  racingSubscribes ++ [.start (.unsubscribeConnection 7), .start (.unsubscribeOne 2)]

theorem ended_connection_forgotten_racing : ∃ s s' : Interleaved,
    run (Interleaved.step fun _ => 0) .new connectionEnds = some s ∧
    run (Interleaved.step fun _ => 0) s ([2, 3, 2, 2, 2, 2, 2, 2].map .advance) = some s' ∧
    s'.shared.registry.subscriptions 2 = none := by
  obtain ⟨s, hs, hcall, hx, hlive, s', hs', hend⟩ :
      ∃ s ∈ run (Interleaved.step fun _ => 0) .new connectionEnds,
        s.calls[2]? = some (.close 7) ∧ 2 ∈ s.shared.registry.connections 7 ∧
        (s.shared.registry.subscriptions 2).isSome ∧
        ∃ s' ∈ run (Interleaved.step fun _ => 0) s ([2, 3, 2, 2, 2, 2, 2, 2].map .advance),
          s'.calls[2]? = some .done := by
    decide +kernel
  exact ⟨s, s', hs, hs', (ended_connection_forgotten hs hcall hx hlive hs' hend).1⟩

end Gone

end BlipMQ.Core
