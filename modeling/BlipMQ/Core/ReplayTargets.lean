import BlipMQ.Core.OnDisk
import BlipMQ.Core.Targets

/-!
# Broker — whom a replay reaches

Replay does not use the fan-out of the publish. It walks the broadcast
subscribers of each record's topic, so the groups on the topic and the
wildcard subscriptions that match it are not offered the record, whatever
they have acked.
-/

namespace BlipMQ.Core

namespace System

/-- A message on `t` reaches its consumers, as far as they are due: who is in no
group gets what it wants, one member of each group on the topic gets it, and
nobody else. -/
structure ReachesConsumers (s : System) (t : String) (due : String × String → Prop)
    (reached : Nat → Prop) : Prop where
  broadcast : ∀ x i l, s.Live x i → i.group = none → s.broker.ledger? x = some l →
    (reached x ↔ i.wants t = true ∧ due (l.clientId, i.home.topic))
  groups : ∀ g, (∃ x, s.Live x (.exact t (some g))) → due ("group:" ++ g, t) →
    ∃ x, s.Live x (.exact t (some g)) ∧
      ∀ y, s.Live y (.exact t (some g)) → (reached y ↔ y = x)
  past : ∀ g x, s.Live x (.exact t (some g)) → ¬ due ("group:" ++ g, t) → ¬ reached x
  elsewhere : ∀ x t' g, s.Live x (.exact t' (some g)) → t' ≠ t → ¬ reached x

/-- The consumers replay passes over have acked this far: those wildcard
subscriptions that match the topic under another name, and the groups on it. -/
structure PassedOverAcked (s : System) (t : String) (due : String × String → Prop) : Prop where
  wildcards : ∀ x p l, s.Live x (.pattern p) → s.broker.ledger? x = some l →
    p.matches t = true → p.raw ≠ t → ¬ due (l.clientId, p.raw)
  groups : ∀ x g, s.Live x (.exact t (some g)) → ¬ due ("group:" ++ g, t)

section Reaches

variable {E : Externals} {s : System} {t : String} {x : Nat} {i : Interest}

theorem Sound.home_of_pattern (h : s.Sound) {p : SubjectPattern} (hlive : s.Live x (.pattern p)) :
    (Interest.pattern p).home = ⟨p.raw, none⟩ := by
  have hparse := h.parsed_of_live hlive
  by_cases hexact : p.isExact = true
  · simp [Interest.home, hexact, SubjectPattern.exactSubject_eq_raw hparse hexact]
  · simp [Interest.home, hexact]

/-- A subscription that is not in a group and is recorded under the topic wants it. -/
theorem Sound.wants_of_home (h : s.Sound) (hlive : s.Live x i)
    (hhome : i.home = ⟨t, none⟩) : i.wants t = true := by
  cases i with
  | exact topic group =>
    cases hhome
    simp [Interest.wants]
  | pattern p =>
    rw [h.home_of_pattern hlive] at hhome
    cases hhome
    exact SubjectPattern.matches_raw (h.parsed_of_live hlive)

/-- The publish reaches the consumers of its topic. -/
theorem Sound.publish_reaches (h : s.Sound) (hrunning : s.broker.shuttingDown = false)
    (key : Option Bytes) : s.ReachesConsumers t (fun _ => True) (· ∈ s.broker.targets E t key) where
  broadcast x i l hlive hgroup _ := by
    rw [← List.count_pos_iff, h.count_broadcast hrunning hlive hgroup, and_true]
    by_cases hwants : i.wants t = true
    · rw [if_pos hwants]
      exact iff_of_true (Nat.add_pos_left Nat.one_pos _) hwants
    · have hsingle : i.doubles t = false := by
        by_contra hdoubles
        exact hwants (h.wants_of_doubles hlive (Bool.eq_true_of_not_eq_false hdoubles)).2
      simp [hwants, hsingle]
  groups g hx _ := by
    obtain ⟨x, hx⟩ := hx
    obtain ⟨y, hy, hchosen⟩ := h.exists_chosen E key hx
    refine ⟨y, hy, fun z hz => ?_⟩
    rw [← hchosen z hz, ← List.count_pos_iff, h.count_grouped hrunning hz]
    split <;> simp_all
  past g x _ hdue := absurd trivial hdue
  elsewhere x t' g hlive hne := by
    rw [← List.count_pos_iff, h.count_grouped hrunning hlive, if_neg (h.not_chosen hlive hne)]
    exact Nat.lt_irrefl 0

/-- Whom replay offers a record to: the subscriptions recorded under its topic,
without a group. -/
theorem Sound.replayed_iff (h : s.Sound) {cursors : MaxMap (String × String)}
    {records : List Wal.WalRecord} {r : Wal.WalRecord} {m : WalMessageRecord} {l : Ledger}
    (hr : r ∈ records) (hm : message? r = some m) (hlive : s.Live x i)
    (hl : s.broker.ledger? x = some l) :
    replayedOffer r m ∈ records.flatMap (s.broker.replayOffers cursors x) ↔
      i.home = ⟨m.topic, none⟩ ∧ cursors.get (l.clientId, m.topic) < r.id := by
  rw [List.mem_flatMap]
  constructor
  · rintro ⟨r', -, ho⟩
    obtain ⟨m', -, hsame, hhome, hlt⟩ := (Broker.mem_replayOffers_iff h.consistent hl).mp ho
    rw [h.home_of_live hlive] at hhome
    injection hsame with hid htopic
    rw [htopic, Option.some.inj hid]
    exact ⟨Option.some.inj hhome, hlt⟩
  · rintro ⟨hhome, hlt⟩
    refine ⟨r, hr, (Broker.mem_replayOffers_iff h.consistent hl).mpr ⟨m, hm, rfl, ?_, hlt⟩⟩
    rw [h.home_of_live hlive, hhome]

/-- Reaching the subscriptions recorded under a topic is reaching its consumers just
if those that are passed over are not due. -/
theorem Sound.reaches_recorded_iff (h : s.Sound) (hpresent : s.broker.Present)
    {due : String × String → Prop} {reached : Nat → Prop}
    (hreached : ∀ x i l, s.Live x i → s.broker.ledger? x = some l →
      (reached x ↔ i.home = ⟨t, none⟩ ∧ due (l.clientId, t))) :
    s.ReachesConsumers t due reached ↔ s.PassedOverAcked t due := by
  have hledger : ∀ {x i}, s.Live x i → ∃ l, s.broker.ledger? x = some l := by
    intro x i hlive
    exact Option.isSome_iff_exists.mp (hpresent x (by rw [h.home_of_live hlive]; rfl))
  have hgrouped : ∀ {x t' g}, s.Live x (.exact t' (some g)) → ¬ reached x := by
    intro x t' g hlive hx
    obtain ⟨l, hl⟩ := hledger hlive
    cases ((hreached x _ l hlive hl).mp hx).1
  constructor
  · intro hall
    refine ⟨fun x p l hlive hl hmatches hraw hdue => ?_, fun x g hlive hdue => ?_⟩
    · have hhome := h.home_of_pattern hlive
      have hx := (hall.broadcast x _ l hlive rfl hl).mpr ⟨hmatches, by rwa [hhome]⟩
      have hsame := ((hreached x _ l hlive hl).mp hx).1
      rw [hhome] at hsame
      cases hsame
      exact hraw rfl
    · obtain ⟨y, hy, hchosen⟩ := hall.groups g ⟨x, hlive⟩ hdue
      exact hgrouped hy ((hchosen y hy).mpr rfl)
  · intro hacked
    refine ⟨fun x i l hlive hgroup hl => ?_, ?_, fun g x hlive _ => hgrouped hlive,
      fun x t' g hlive _ => hgrouped hlive⟩
    · rw [hreached x i l hlive hl]
      constructor
      · rintro ⟨hhome, hdue⟩
        exact ⟨h.wants_of_home hlive hhome, by rwa [hhome]⟩
      · rintro ⟨hwants, hdue⟩
        cases i with
        | exact topic group =>
          cases hgroup
          obtain rfl : topic = t := by simpa [Interest.wants] using hwants
          exact ⟨rfl, hdue⟩
        | pattern p =>
          rw [h.home_of_pattern hlive] at hdue ⊢
          by_cases hraw : p.raw = t
          · rw [hraw] at hdue ⊢
            exact ⟨rfl, hdue⟩
          · exact absurd hdue (hacked.wildcards x p l hlive hl hwants hraw)
    · rintro g ⟨x, hlive⟩ hdue
      exact absurd hdue (hacked.groups x g hlive)

end Reaches

/-- **When a replay reaches the consumers a publish would.** In every state of
every run and for every index and directory, replay offers each message record that
`iterate_from` returns to the consumers of its topic whose cursor is not past it,
just if there is none among them that it passes over: a group on the topic, or a
wildcard subscription that matches the topic and is not named like it. Where the
records stand in the files in the order of their ids, it returns all of them from the
start on. -/
theorem replay_reaches_consumers_iff (E : Externals) (crc : Bytes → UInt32)
    (config : BrokerConfig) (hasWal : Bool) (acts : List BrokerAction) (now : Nat)
    (index : Wal.Index) (dir : Dir Bytes) (checkpoint : Option CheckpointSnapshot)
    {records : List Wal.WalRecord}
    (hread : Wal.iterateFrom crc index dir (Broker.replayStart checkpoint) = .ok records) :
    let s := (System.new config hasWal).run E acts
    let cursors := Broker.cursorsOf checkpoint records
    ∃ (b : Broker) (os : Nat → List Offer),
      s.broker.replayFromFiles E crc now index dir checkpoint = .ok b ∧
      (∀ x, b.ledger? x = (s.broker.ledger? x).map (·.offer (os x))) ∧
      (s.broker.shuttingDown = false → ∀ t key,
        s.ReachesConsumers t (fun _ => True) (· ∈ s.broker.targets E t key)) ∧
      (∀ r ∈ records, ∀ m, message? r = some m →
        (s.ReachesConsumers m.topic (cursors.get · < r.id) (replayedOffer r m ∈ os ·) ↔
          s.PassedOverAcked m.topic (cursors.get · < r.id))) ∧
      ∀ log, OnDisk crc index dir log →
        records = log.records.filter (Broker.replayStart checkpoint ≤ ·.id) := by
  intro s cursors
  have hsound : s.Sound := (Sound.new config hasWal).run acts
  have hpresent : s.broker.Present := present_run E config hasWal acts
  refine ⟨_, _, by rw [Broker.replayFromFiles, hread]; rfl,
    Broker.ledger?_replayRecords E now s.broker checkpoint records,
    fun hrunning t key => hsound.publish_reaches hrunning key, fun r hr m hm => ?_,
    fun log hlog => Except.ok.inj (hread.symm.trans (hlog.iterateFrom _))⟩
  exact hsound.reaches_recorded_iff hpresent fun x i l hlive hl =>
    hsound.replayed_iff hr hm hlive hl

/-- A log with the message `[2]` on `a`. -/
def loggedMessage : Log := .ofEntries [.message ⟨"a", .atLeastOnce, [2]⟩]

theorem onDisk_loggedMessage : OnDisk Crc32.crc32 loggedMessage.index
    (loggedMessage.dir Crc32.crc32) loggedMessage :=
  ⟨by decide +kernel, rfl, by decide +kernel⟩

/-- A subscription of the topic itself is offered the record. -/
theorem replay_reaches_consumers_iff_exact :
    let s := (System.new .default true).run bareExternals
      [.subscribe "c" "a" .atLeastOnce none .poll none]
    ∃ b l, s.broker.replayFromFiles bareExternals Crc32.crc32 0 loggedMessage.index
        (loggedMessage.dir Crc32.crc32) none = .ok b ∧
      b.ledger? 1 = some l ∧ ⟨some 1, "a", [2], .atLeastOnce⟩ ∈ l.offered := by
  intro s
  have hregs : s.registrations.entries = [⟨1, ⟨.exact "a" none, none⟩⟩] := by decide +kernel
  have hledger : s.broker.ledger? 1 = some ⟨"c", ⟨"a", none⟩, [], []⟩ := by decide +kernel
  have hlive : s.Live 1 (.exact "a" none) := ⟨by decide +kernel, by decide +kernel⟩
  have honly : ∀ x i, s.Live x i → i = .exact "a" none := by
    intro x i hx
    obtain ⟨-, reg, -, hreg, rfl⟩ := hx.record
    have hmem := AList.mem_lookup_iff.mp hreg
    rw [hregs, List.mem_singleton] at hmem
    cases hmem
    rfl
  obtain ⟨b, os, hb, hos, -, hiff, -⟩ := replay_reaches_consumers_iff bareExternals Crc32.crc32
    .default true [.subscribe "c" "a" .atLeastOnce none .poll none] 0 loggedMessage.index
    (loggedMessage.dir Crc32.crc32) none (onDisk_loggedMessage.iterateFrom _)
  obtain ⟨r, hr, hid, hm⟩ : ∃ r ∈ loggedMessage.iterateFrom (Broker.replayStart none),
      r.id = 1 ∧ message? r = some ⟨"a", .atLeastOnce, [2]⟩ := by decide +kernel
  have hreaches := (hiff r hr _ hm).mpr
    ⟨fun x p _ hx => Interest.noConfusion (honly x _ hx),
      fun x g hx => absurd (honly x _ hx) (by simp)⟩
  have hcursor : (Broker.replayCursors loggedMessage none).get ("c", "a") = 0 := by
    decide +kernel
  have hoffer := (hreaches.broadcast 1 _ _ hlive rfl hledger).mpr ⟨by decide, by
    show (Broker.replayCursors loggedMessage none).get ("c", "a") < r.id
    rw [hcursor, hid]
    decide⟩
  refine ⟨b, _, hb, (hos 1).trans (by rw [hledger]; rfl), List.mem_append_right _ ?_⟩
  rwa [replayedOffer, hid] at hoffer

/-- **Groups and wildcards lose their backlog**: nobody has acked anything, a
publish on `a` would reach the member of the group and the pattern `*`, and the
replay of a message on `a` offers it to neither. -/
theorem replay_passes_over :
    let s := (System.new .default true).run bareExternals
      [.subscribe "c" "a" .atLeastOnce none .poll (some "g"),
        .subscribePattern "d" "*" .atLeastOnce none .poll]
    let replayed := s.broker.replayFromFiles bareExternals Crc32.crc32 0 loggedMessage.index
      (loggedMessage.dir Crc32.crc32) none
    s.broker.targets bareExternals "a" none = [1, 2] ∧
      loggedMessage.messages.map Prod.fst = [1] ∧ loggedMessage.acks = [] ∧
      ∃ b, replayed = .ok b ∧
        (b.ledger? 1).map Ledger.offered = some [] ∧
        (b.ledger? 2).map Ledger.offered = some [] := by
  refine ⟨by decide +kernel, by decide +kernel, by decide +kernel, _,
    onDisk_loggedMessage.replayFromFiles .., ?_⟩
  decide +kernel

end System

end BlipMQ.Core
