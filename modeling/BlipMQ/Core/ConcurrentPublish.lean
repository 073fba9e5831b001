import BlipMQ.Core.SideBySide
import BlipMQ.Core.Targets
import Mathlib.Data.List.Count

/-!
# Broker — a publish among other calls

A publish reads the places of its topic one after the other, and the list of
wildcards last, while subscriptions come and go. There need not be one moment at
which the registries were as its snapshot says. Still, what is registered during
the whole call is found once, and a group that has members during the whole call
gives one of them.
-/

namespace BlipMQ.Core

/-! ## What is still to be read -/

namespace Read

/-- The broadcast subscribers are still to be read. -/
def broadcast : Read → Nat
  | .topic | .subscribers => 1
  | _ => 0

/-- The group is still to be asked. -/
def group (g : String) : Read → Nat
  | .topic | .groups => 1
  | .members h => if h = g then 1 else 0
  | _ => 0

/-- A matching entry of `x` is still to be looked up. -/
def wildcard (t : String) (x : Nat) : Read → Nat
  | .wildcardsLen | .wildcards => 1
  | .lookup pattern y => if y = x ∧ pattern.matches t then 1 else 0
  | _ => 0

end Read

section Reads

variable {ahash : Bytes → Nat} {s : Shared} {t : String} {x : Nat}

theorem Read.broadcast_balance (hx : (s.registry.members t none).count x = 1)
    (htopic : t ∈ s.topics) (key : Option Bytes) (r : Read) :
    (r.finds ahash s t key).countP (· = (.place none, x)) + total broadcast (r.leads s t) =
      r.broadcast := by
  cases r with
  | topic => simp [finds, leads, htopic, broadcast]
  | subscribers =>
    have hcount : ((s.registry.members t none).map (Source.place none, ·)).countP
        (· = (Source.place none, x)) = (s.registry.members t none).count x := by
      simp [List.countP_map, List.count, Function.comp_def, beq_eq_decide]
    rw [finds, hcount, hx]
    rfl
  | groups | members _ | wildcards => simp [finds, leads, broadcast, total, Function.comp_def]
  | wildcardsLen | lookup _ _ =>
    simp only [finds, leads]
    split <;> simp [broadcast]

theorem Read.group_balance {g : String} (hne : s.registry.members t (some g) ≠ [])
    (htopic : t ∈ s.topics) (hg : (s.groups t).count g = 1) (key : Option Bytes) (r : Read) :
    (r.finds ahash s t key).countP (·.1 = .place (some g)) + total (group g) (r.leads s t) =
      r.group g := by
  cases r with
  | topic => simp [finds, leads, htopic, group]
  | groups =>
    have hcount : total (group g) ((s.groups t).map .members) = (s.groups t).count g := by
      induction s.groups t with
      | nil => rfl
      | cons h groups ih => simp [group, ih, List.count_cons, Nat.add_comm]
    rw [finds, leads, hcount, hg]
    rfl
  | members h =>
    by_cases hh : h = g
    · subst hh
      obtain ⟨y, -, hy⟩ := (s.group t h).choose_some ahash key hne
      simp [finds, leads, group, hy]
    · simp [finds, leads, group, hh]
  | subscribers | wildcards => simp [finds, leads, group, total, Function.comp_def]
  | wildcardsLen | lookup _ _ =>
    simp only [finds, leads]
    split <;> simp [group]

theorem Read.wildcard_balance
    (hx : (s.registry.wildcards.countP fun p => p.2 = x ∧ p.1.matches t) = 1)
    (hlen : 0 < s.registry.wildcardsLen) (hlive : (s.registry.subscriptions x).isSome)
    (key : Option Bytes) (r : Read) :
    (r.finds ahash s t key).countP (· = (.wildcard, x)) + total (wildcard t x) (r.leads s t) =
      r.wildcard t x := by
  cases r with
  | topic =>
    simp only [finds, leads]
    split <;> rfl
  | subscribers | groups | members _ => simp [finds, leads, wildcard, total, Function.comp_def]
  | wildcardsLen => simp [finds, leads, hlen, wildcard]
  | wildcards =>
    have hcount : total (wildcard t x) (s.registry.wildcards.map fun p => .lookup p.1 p.2) =
        s.registry.wildcards.countP fun p => p.2 = x ∧ p.1.matches t := by
      induction s.registry.wildcards with
      | nil => rfl
      | cons p wildcards ih => simp [wildcard, ih, List.countP_cons, Nat.add_comm]
    rw [finds, leads, hcount, hx]
    rfl
  | lookup pattern y =>
    by_cases hy : y = x
    · subst hy
      by_cases hmatch : pattern.matches t <;> simp [finds, leads, wildcard, hmatch, hlive]
    · simp only [finds, leads]
      split <;> simp [wildcard, hy]

end Reads

/-! ## What is registered -/

section Registered

variable {s : Interleaved} {t : String} {x : Nat}

/-- A member is once in its place. -/
theorem Sound.count_members (h : Sound s) {g : Option String}
    (hx : x ∈ s.shared.registry.members t g) : (s.shared.registry.members t g).count x = 1 := by
  have hpos := List.count_pos_iff.mpr hx
  have hplaced : (s.shared.registry.members t g).count x = _ := h.placed x ⟨t, g⟩
  have hone := h.claimed.le_one x
  have hle := total_le_total (Call.holds_le_claims x ⟨t, g⟩) s.calls
  have hnames := s.shared.registry.names_le_live x ⟨t, g⟩
  omega

theorem Sound.count_matching (h : Sound s) {pattern : SubjectPattern}
    (hx : (pattern, x) ∈ s.shared.registry.wildcards) (hmatch : pattern.matches t = true) :
    (s.shared.registry.wildcards.countP fun p => p.2 = x ∧ p.1.matches t) = 1 := by
  have hpos : 0 < s.shared.registry.wildcards.countP fun p => p.2 = x ∧ p.1.matches t :=
    List.countP_pos_iff.mpr ⟨_, hx, by simp [hmatch]⟩
  have hle : (s.shared.registry.wildcards.countP fun p => p.2 = x ∧ p.1.matches t) ≤
      (s.shared.registry.wildcards.map Prod.snd).count x := by
    rw [List.count, List.countP_map]
    exact List.countP_mono_left fun p _ hp => by simp_all
  exact Nat.le_antisymm (hle.trans ((Nat.le_add_right _ _).trans (h.listed.le_one x))) hpos

end Registered

/-! ## Along a run -/

section Run

variable {ahash : Bytes → Nat} {i : Nat} {s s' : Interleaved} {as : List Move}
  {p : Reading} {t : String}

/-- `P` holds in every state of the run that a step is taken from. -/
def Throughout (ahash : Bytes → Nat) (P : Shared → Prop) (s : Interleaved) (as : List Move) :
    Prop :=
  Meets (Interleaved.step ahash) (fun s _ => P s.shared) s as

instance Throughout.decidable (P : Shared → Prop) [DecidablePred P] (s : Interleaved)
    (as : List Move) : Decidable (Throughout ahash P s as) :=
  inferInstanceAs (Decidable (Meets _ _ s as))

/-- Call `i` is a publish to `t` that has found one of `q`, or has still to read it. -/
def Finding (t : String) (q : Source × Nat → Bool) (w : Read → Nat) (i : Nat)
    (s : Interleaved) : Prop :=
  ∃ p, s.calls[i]? = some (.publish p) ∧ p.topic = t ∧ p.found.countP q + total w p.todo = 1

/-- Where each section finds what it was to find, all of them find one of `q`. -/
theorem Finding.run {P : Shared → Prop} {q : Source × Nat → Bool} {w : Read → Nat}
    (hread : ∀ s, Sound s → P s.shared → ∀ key r,
      (r.finds ahash s.shared t key).countP q + total w (r.leads s.shared t) = w r)
    (hsound : Sound s) (h : Finding t q w i s) (hP : Throughout ahash P s as)
    (hrun : run (Interleaved.step ahash) s as = some s')
    (hend : s'.calls[i]? = some (.publish p)) (hdone : p.todo = []) : p.found.countP q = 1 := by
  have hboth : Sound s' ∧ Finding t q w i s' := by
    refine run_invariant_of_meets (P := fun s => Sound s ∧ Finding t q w i s)
      (Interleaved.step_invariant ahash ?_ ?_) ⟨hsound, h⟩ hP hrun
    · rintro s request ⟨hsound, p, hp, hfinding⟩
      refine ⟨hsound.start request, p, ?_, hfinding⟩
      rw [List.getElem?_append_left (List.getElem?_eq_some_iff.mp hp).1]
      exact hp
    · rintro s j c sh c' ⟨hsound, p, hp, rfl, hone⟩ hP hc hnext
      refine ⟨hsound.next hc hnext, ?_⟩
      by_cases hij : j = i
      · subst hij
        obtain rfl : Call.publish p = c := Option.some.inj (hp.symm.trans hc)
        obtain ⟨⟨sh', p'⟩, hnext', heq⟩ := Option.map_eq_some_iff.mp hnext
        cases heq
        obtain ⟨r, todo, turns, htodo, -, rfl⟩ := Reading.next_some hnext'
        have hbalance := hread s hsound hP p.key r
        rw [htodo, total_cons] at hone
        refine ⟨_, List.getElem?_set_self (List.getElem?_eq_some_iff.mp hc).1, rfl, ?_⟩
        rw [List.countP_append, total_append]
        omega
      · exact ⟨p, (List.getElem?_set_ne hij).trans hp, rfl, hone⟩
  obtain ⟨p', hp', -, hone⟩ := hboth.2
  rw [hend] at hp'
  cases hp'
  rw [hdone] at hone
  exact hone

/-- **A publish among other calls misses nobody.** Every broadcast subscriber that is
there during the whole call is found once, every group that has members during the
whole call gives one of them, and every wildcard subscription that matches and is
listed and live during the whole call is found once. -/
theorem publish_finds {bs : List Move} {request : Request} {key : Option Bytes}
    (hreach : run (Interleaved.step ahash) .new bs = some s)
    (hbegin : s.calls[i]? = some request.call)
    (hrequest : request = .publish t key ∨ request = .publishResolved t key)
    (hrun : run (Interleaved.step ahash) s as = some s')
    (hend : s'.calls[i]? = some (.publish p)) (hdone : p.todo = []) :
    (∀ x, Throughout ahash (fun s => x ∈ s.registry.members t none) s as →
      p.found.countP (· = (.place none, x)) = 1) ∧
    (∀ g, Throughout ahash (fun s => s.registry.members t (some g) ≠ []) s as →
      p.found.countP (·.1 = .place (some g)) = 1) ∧
    ∀ x pattern, pattern.matches t = true →
      Throughout ahash (fun s => (pattern, x) ∈ s.registry.wildcards ∧
        (s.registry.subscriptions x).isSome) s as →
      p.found.countP (· = (.wildcard, x)) = 1 := by
  have hsound := Sound.new.run hreach
  have hstart : ∀ q w, total w [Read.topic, .wildcardsLen] = 1 →
      total w [Read.subscribers, .groups, .wildcardsLen] = 1 → Finding t q w i s := by
    intro q w hone hone'
    rcases hrequest with rfl | rfl
    · exact ⟨_, hbegin, rfl, (Nat.zero_add _).trans hone⟩
    · exact ⟨_, hbegin, rfl, (Nat.zero_add _).trans hone'⟩
  refine ⟨fun x hx => ?_, fun g hg => ?_, fun x pattern hmatch hx => ?_⟩
  · refine Finding.run (fun s hsound hmem => ?_) hsound (hstart _ Read.broadcast rfl rfl) hx hrun
      hend hdone
    have hknown := hsound.known.members ⟨t, none⟩ x hmem
    exact Read.broadcast_balance (hsound.count_members hmem)
      ((Shared.knows_iff _).mp hknown).1
  · refine Finding.run (fun s hsound hne => ?_) hsound (hstart _ (Read.group g) rfl rfl) hg hrun
      hend hdone
    obtain ⟨y, hy⟩ := List.exists_mem_of_ne_nil _ hne
    obtain ⟨htopic, hgroup⟩ := (Shared.knows_iff _).mp (hsound.known.members ⟨t, some g⟩ y hy)
    exact Read.group_balance hne htopic
      (List.count_eq_one_of_mem (hsound.known.nodup t) (hgroup g rfl))
  · refine Finding.run (fun s hsound hlisted => ?_) hsound (hstart _ (Read.wildcard t x) rfl rfl)
      hx hrun hend hdone
    refine Read.wildcard_balance (hsound.count_matching hlisted.1 hmatch) ?_ hlisted.2
    rw [hsound.counted]
    exact List.length_pos_of_mem hlisted.1

/-- Three subscriptions that `a.b` reaches, and a publish to it begins. -/
def publishBegins : List Move :=
  (.start (.subscribe ⟨⟨"a.b", none⟩, some 7, none⟩) :: List.replicate 5 (.advance 0)) ++
  (.start (.subscribe ⟨⟨"a.*", none⟩, some 7, some ⟨"a.*", [.literal "a", .wildcard], false⟩⟩) ::
    List.replicate 6 (.advance 1)) ++
  (.start (.subscribe ⟨⟨"a.b", some "g"⟩, some 8, none⟩) :: List.replicate 6 (.advance 2)) ++
  [.start (.publish "a.b" none)]

/-- The publish runs while connection 8 is closed and somebody else joins the group. -/
def publishAmong : List Move :=
  [.start (.unsubscribeConnection 8), .start (.subscribe ⟨⟨"a.b", some "g"⟩, none, none⟩)] ++
  [3, 5, 3, 5, 5, 5, 4, 3, 4, 3, 4, 4, 4, 3, 3, 3, 4].map .advance

theorem publish_finds_among : ∃ s s' : Interleaved, ∃ p : Reading,
    run (Interleaved.step fun _ => 0) .new publishBegins = some s ∧
    run (Interleaved.step fun _ => 0) s publishAmong = some s' ∧
    s'.calls[3]? = some (.publish p) ∧ p.found.countP (· = (.place none, 1)) = 1 ∧
    p.found.countP (·.1 = .place (some "g")) = 1 ∧ p.found.countP (· = (.wildcard, 2)) = 1 := by
  obtain ⟨s, hs, hbegin, hbroadcast, hgroup, hwildcard, s', hs', hend⟩ :
      ∃ s ∈ run (Interleaved.step fun _ => 0) .new publishBegins,
        s.calls[3]? = some (Request.publish "a.b" none).call ∧
        Throughout (fun _ => 0) (fun s => 1 ∈ s.registry.members "a.b" none) s publishAmong ∧
        Throughout (fun _ => 0) (fun s => s.registry.members "a.b" (some "g") ≠ []) s
          publishAmong ∧
        Throughout (fun _ => 0) (fun s =>
          (⟨"a.*", [.literal "a", .wildcard], false⟩, 2) ∈ s.registry.wildcards ∧
            (s.registry.subscriptions 2).isSome) s publishAmong ∧
        ∃ s' ∈ run (Interleaved.step fun _ => 0) s publishAmong,
          s'.calls[3]? = some (.publish ⟨"a.b", none, [],
            [(.place none, 1), (.place (some "g"), 3), (.wildcard, 2)]⟩) := by
    decide +kernel
  obtain ⟨hbroadcasts, hgroups, hwildcards⟩ :=
    publish_finds hs hbegin (.inl rfl) hs' hend rfl
  exact ⟨s, s', _, hs, hs', hend, hbroadcasts 1 hbroadcast, hgroups "g" hgroup,
    hwildcards 2 _ (by decide +kernel) hwildcard⟩

end Run

end BlipMQ.Core
