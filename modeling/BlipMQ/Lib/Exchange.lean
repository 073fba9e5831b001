import BlipMQ.Lib.Run

/-!
# Two producers and a consumer that swaps buffers

One producer appends to a buffer it shares with the consumer, the other one
sends on a queue. The consumer goes in rounds: it swaps the shared buffer,
unless that is empty, for the one it holds, takes from the queue for a while,
and writes out what it then holds. If it holds nothing it waits, and an item
of the queue that ends the wait is in its hands when the next round begins.

Nothing is lost and the first producer's items come out in their order. An
item that ended a wait may be swapped into the shared buffer, and what is
taken from the queue before the next swap overtakes it.
-/

namespace BlipMQ

/-- Where the consumer stands in its round. -/
inductive Phase where
  | take
  | drain
  | flush
  | wait
  | last
  | done
  deriving DecidableEq, Repr

/-- Items of the first producer are on the left, items of the queue on the
right. -/
structure Exchange (α β : Type*) where
  phase : Phase
  held : List (α ⊕ β)
  shared : List (α ⊕ β)
  queue : List β
  out : List (α ⊕ β)

namespace Exchange

variable {α β : Type*}

inductive Move (α β : Type*) where
  | push (a : α)
  | send (b : β)
  | take
  | draw
  | stop
  | flush
  | wake
  | recv
  | close

def start : Exchange α β := ⟨.take, [], [], [], []⟩

/-- The swap, unless there is nothing to get. -/
def swap (x : Exchange α β) : Exchange α β :=
  if x.shared.isEmpty then x else { x with held := x.shared, shared := x.held }

def step (x : Exchange α β) : Move α β → Option (Exchange α β)
  | .push a => some { x with shared := x.shared ++ [.inl a] }
  | .send b => some { x with queue := x.queue ++ [b] }
  | .take => if x.phase = .take then some { x.swap with phase := .drain } else none
  | .draw =>
    match x.phase, x.queue with
    | .drain, b :: rest => some { x with held := x.held ++ [.inr b], queue := rest }
    | _, _ => none
  | .stop => if x.phase = .drain then some { x with phase := .flush } else none
  | .flush =>
    match x.phase with
    | .flush =>
      if x.held.isEmpty then some { x with phase := .wait }
      else some { x with out := x.out ++ x.held, held := [], phase := .take }
    | .last => some { x with out := x.out ++ x.held, held := [], phase := .done }
    | _ => none
  | .wake => if x.phase = .wait then some { x with phase := .take } else none
  | .recv =>
    match x.phase, x.queue with
    | .wait, b :: rest =>
      some { x with held := x.held ++ [.inr b], queue := rest, phase := .take }
    | _, _ => none
  -- the queue is closed: one more swap and one more write
  | .close => if x.phase = .wait then some { x.swap with phase := .last } else none

/-! ## The two kinds of items -/

def lefts (l : List (α ⊕ β)) : List α := l.filterMap Sum.getLeft?
def rights (l : List (α ⊕ β)) : List β := l.filterMap Sum.getRight?

@[simp] theorem lefts_append (l l' : List (α ⊕ β)) : lefts (l ++ l') = lefts l ++ lefts l' :=
  List.filterMap_append

@[simp] theorem rights_append (l l' : List (α ⊕ β)) : rights (l ++ l') = rights l ++ rights l' :=
  List.filterMap_append

@[simp] theorem lefts_nil : lefts ([] : List (α ⊕ β)) = [] := rfl
@[simp] theorem rights_nil : rights ([] : List (α ⊕ β)) = [] := rfl
@[simp] theorem lefts_inl (a : α) (l : List (α ⊕ β)) : lefts (.inl a :: l) = a :: lefts l := rfl
@[simp] theorem lefts_inr (b : β) (l : List (α ⊕ β)) : lefts (.inr b :: l) = lefts l := rfl
@[simp] theorem rights_inl (a : α) (l : List (α ⊕ β)) : rights (.inl a :: l) = rights l := rfl
@[simp] theorem rights_inr (b : β) (l : List (α ⊕ β)) : rights (.inr b :: l) = b :: rights l := rfl

/-- A list is made up of its two kinds of items. -/
theorem perm_lefts_rights (l : List (α ⊕ β)) :
    l.Perm ((lefts l).map .inl ++ (rights l).map .inr) := by
  induction l with
  | nil => exact .refl _
  | cons i l ih =>
    cases i with
    | inl a => exact ih.cons (Sum.inl a)
    | inr b => exact (ih.cons (Sum.inr b)).trans List.perm_middle.symm

/-- What has come from the queue or the first producer, in the order in which it
is written if nothing is added. -/
def line (x : Exchange α β) : List (α ⊕ β) := x.out ++ x.held ++ x.shared

/-! ## What each move adds -/

def Move.pushed : Move α β → List α
  | .push a => [a]
  | _ => []

def Move.sent : Move α β → List β
  | .send b => [b]
  | _ => []

def pushes (moves : List (Move α β)) : List α := moves.flatMap Move.pushed
def sends (moves : List (Move α β)) : List β := moves.flatMap Move.sent

/-! ## Invariants of a round -/

/-- At the start of a round the consumer holds nothing from the shared buffer,
and if it holds something the shared buffer has nothing from the queue. When
it waits, it holds nothing. -/
structure Round (x : Exchange α β) : Prop where
  fresh : x.phase = .take → lefts x.held = [] ∧ (x.held = [] ∨ rights x.shared = [])
  busy : x.phase = .drain ∨ x.phase = .flush → x.held = [] → rights x.shared = []
  waiting : x.phase = .wait → x.held = [] ∧ rights x.shared = []

/-- What has been pushed and sent so far, seen from the state. -/
structure Traced (x : Exchange α β) (pushed : List α) (sent : List β) : Prop where
  round : x.Round
  pushed : lefts x.line = pushed
  sent : ∃ taken, sent = taken ++ x.queue ∧ taken.Perm (rights x.line)

/-- The queue's items come out in the order they were sent. -/
def InOrder (x : Exchange α β) (sent : List β) : Prop := rights x.line ++ x.queue = sent

/-- Two items of the queue come out in the wrong order. -/
def Disordered (x : Exchange α β) (sent : List β) : Prop :=
  ∃ b b', [b, b'].Sublist sent ∧ [b', b].Sublist (rights x.line)

/-- An item is taken from the queue while an earlier one is in the shared buffer. -/
def Overtakes (x : Exchange α β) : Move α β → Prop
  | .draw => rights x.shared ≠ [] ∧ x.queue ≠ []
  | _ => False

section Step

variable {x x' : Exchange α β} {m : Move α β} {pushed : List α} {sent : List β}

theorem Traced.start : (start : Exchange α β).Traced [] [] where
  round := ⟨fun _ => ⟨rfl, .inl rfl⟩, fun _ _ => rfl, fun _ => ⟨rfl, rfl⟩⟩
  pushed := rfl
  sent := ⟨[], rfl, .refl _⟩

/-- A swap at the start of a round leaves each kind of items in its order. -/
theorem swap_line (h : x.held = [] ∨ (lefts x.held = [] ∧ rights x.shared = [])) :
    lefts x.swap.line = lefts x.line ∧ rights x.swap.line = rights x.line := by
  unfold swap
  split
  · exact ⟨rfl, rfl⟩
  · rcases h with h | ⟨hl, hr⟩
    · simp [line, h]
    · simp [line, hl, hr]

theorem swap_queue (x : Exchange α β) : x.swap.queue = x.queue := by
  unfold swap
  split <;> rfl

/-- After a swap the consumer holds something, or the shared buffer is empty. -/
theorem swap_held (h : x.swap.held = []) : x.swap.shared = [] := by
  unfold swap at h ⊢
  split
  · rename_i hnil
    exact List.isEmpty_iff.mp hnil
  · rename_i hne
    rw [if_neg hne] at h
    exact absurd (List.isEmpty_iff.mpr h) hne

theorem Round.of_take (hp : x.phase = .take) (hl : lefts x.held = [])
    (hr : x.held = [] ∨ rights x.shared = []) : x.Round := by
  refine ⟨fun _ => ⟨hl, hr⟩, fun h => ?_, fun h => ?_⟩ <;> simp [hp] at h

theorem Round.of_busy (hp : x.phase = .drain ∨ x.phase = .flush)
    (hr : x.held = [] → rights x.shared = []) : x.Round := by
  refine ⟨fun h => ?_, fun _ => hr, fun h => ?_⟩ <;> simp [h] at hp

theorem Round.of_wait (hp : x.phase = .wait) (hheld : x.held = [])
    (hr : rights x.shared = []) : x.Round := by
  refine ⟨fun h => ?_, fun h => ?_, fun _ => ⟨hheld, hr⟩⟩ <;> simp [hp] at h

/-- At the end there are no rounds any more. -/
theorem Round.of_end (hp : x.phase = .last ∨ x.phase = .done) : x.Round := by
  refine ⟨fun h => ?_, fun h => ?_, fun h => ?_⟩
  · simp [h] at hp
  · rcases h with h | h <;> simp [h] at hp
  · simp [h] at hp

/-- The moves by what they do to the items that have come in. -/
inductive Effect (x : Exchange α β) : Move α β → Exchange α β → Prop
  | pushed {a : α} : Effect x (.push a) { x with shared := x.shared ++ [.inl a] }
  | sent {b : β} : Effect x (.send b) { x with queue := x.queue ++ [b] }
  | took {m : Move α β} {b : β} {rest : List β} {phase : Phase} (hq : x.queue = b :: rest)
      (hover : x.Overtakes m ↔ rights x.shared ≠ []) (hpushed : m.pushed = [])
      (hsent : m.sent = []) :
      Effect x m { x with held := x.held ++ [.inr b], queue := rest, phase := phase }
  | kept {m : Move α β} {x' : Exchange α β} (hl : lefts x'.line = lefts x.line)
      (hr : rights x'.line = rights x.line) (hq : x'.queue = x.queue) (hover : ¬ x.Overtakes m)
      (hpushed : m.pushed = []) (hsent : m.sent = []) : Effect x m x'

theorem effect_of_step (h : x.Round) (hs : x.step m = some x') : Effect x m x' ∧ x'.Round := by
  cases m with
  | push a =>
    cases hs
    refine ⟨.pushed, ⟨fun hp => ?_, fun hp hh => ?_, fun hp => ?_⟩⟩
    · simpa using h.fresh hp
    · simpa using h.busy hp hh
    · simpa using h.waiting hp
  | send b =>
    cases hs
    exact ⟨.sent, ⟨h.fresh, h.busy, h.waiting⟩⟩
  | take =>
    obtain ⟨hp, ⟨⟩⟩ := Option.ite_none_right_eq_some.mp hs
    obtain ⟨hl, hor⟩ := h.fresh hp
    obtain ⟨hlefts, hrights⟩ := swap_line (x := x) (hor.imp_right fun hr => ⟨hl, hr⟩)
    refine ⟨.kept hlefts hrights x.swap_queue id rfl rfl, .of_busy (.inl rfl) fun hheld => ?_⟩
    exact congrArg rights (swap_held hheld)
  | draw =>
    simp only [step] at hs
    split at hs
    · rename_i b rest hp hq
      cases hs
      refine ⟨.took hq ?_ rfl rfl, .of_busy (.inl hp) fun hheld => ?_⟩
      · simp [Overtakes, hq]
      · simp at hheld
    · cases hs
  | stop =>
    obtain ⟨hp, ⟨⟩⟩ := Option.ite_none_right_eq_some.mp hs
    exact ⟨.kept rfl rfl rfl id rfl rfl, .of_busy (.inr rfl) (h.busy (.inl hp))⟩
  | flush =>
    simp only [step] at hs
    split at hs
    · rename_i hp
      split at hs
      · rename_i hnil
        cases hs
        have hheld := List.isEmpty_iff.mp hnil
        exact ⟨.kept rfl rfl rfl id rfl rfl, .of_wait rfl hheld (h.busy (.inr hp) hheld)⟩
      · cases hs
        refine ⟨.kept ?_ ?_ rfl id rfl rfl, .of_take rfl rfl (.inl rfl)⟩ <;> simp [line]
    · cases hs
      refine ⟨.kept ?_ ?_ rfl id rfl rfl, .of_end (.inr rfl)⟩ <;> simp [line]
    · cases hs
  | wake =>
    obtain ⟨hp, ⟨⟩⟩ := Option.ite_none_right_eq_some.mp hs
    have hheld := (h.waiting hp).1
    exact ⟨.kept rfl rfl rfl id rfl rfl, .of_take rfl (congrArg lefts hheld) (.inl hheld)⟩
  | recv =>
    simp only [step] at hs
    split at hs
    · rename_i b rest hp hq
      cases hs
      obtain ⟨hheld, hshared⟩ := h.waiting hp
      refine ⟨.took hq ?_ rfl rfl, .of_take rfl ?_ (.inr hshared)⟩
      · simp [Overtakes, hshared]
      · simp [hheld]
    · cases hs
  | close =>
    obtain ⟨hp, ⟨⟩⟩ := Option.ite_none_right_eq_some.mp hs
    obtain ⟨hlefts, hrights⟩ := swap_line (x := x) (.inl (h.waiting hp).1)
    exact ⟨.kept hlefts hrights x.swap_queue id rfl rfl, .of_end (.inl rfl)⟩

theorem Traced.step (h : x.Traced pushed sent) (hs : x.step m = some x') :
    x'.Traced (pushed ++ m.pushed) (sent ++ m.sent) := by
  obtain ⟨heffect, hround⟩ := effect_of_step h.round hs
  obtain ⟨taken, hsent, hperm⟩ := h.sent
  have hpushed := h.pushed
  refine ⟨hround, ?_, ?_⟩
  · cases heffect with
    | pushed => simp [line, Move.pushed, ← hpushed]
    | sent => simpa [line, Move.pushed] using hpushed
    | took _ _ hp _ => simpa [line, hp] using hpushed
    | kept hl _ _ _ hp _ => rw [hl, hp, List.append_nil, hpushed]
  · cases heffect with
    | pushed => exact ⟨taken, by simp [Move.sent, hsent], by simpa [line] using hperm⟩
    | sent => exact ⟨taken, by simp [Move.sent, hsent], hperm⟩
    | @took _ b rest _ hq _ _ hm =>
      refine ⟨taken ++ [b], by simp [hm, hsent, hq], ?_⟩
      -- the item goes behind what is held, which is in front of the shared buffer
      have hmid : (rights x.line ++ [b]).Perm (rights x.out ++ rights x.held ++ [b] ++
          rights x.shared) := by
        simp only [line, rights_append, List.append_assoc]
        exact (List.perm_append_comm.append_left _).append_left _
      refine (hperm.append_right [b]).trans (hmid.trans ?_)
      simp [line]
    | kept _ hr hq _ _ hm => exact ⟨taken, by rw [hm, List.append_nil, hsent, hq], hr ▸ hperm⟩

/-- A move that overtakes nothing keeps the order. -/
theorem InOrder.step (h : x.InOrder sent) (hround : x.Round) (hover : ¬ x.Overtakes m)
    (hs : x.step m = some x') : x'.InOrder (sent ++ m.sent) := by
  unfold InOrder at h ⊢
  cases (effect_of_step hround hs).1 with
  | pushed => simpa [line, Move.sent] using h
  | sent => simp [line, Move.sent, ← h]
  | took hq hiff _ hm =>
    have hshared : rights x.shared = [] := by simpa using mt hiff.mpr hover
    simp [line, hm, hshared, ← h, hq]
  | kept _ hr hq _ _ hm => rw [hr, hq, hm, List.append_nil, h]

/-- A move that overtakes puts two items in the wrong order. -/
theorem Traced.disordered (h : x.Traced pushed sent) (hover : x.Overtakes m)
    (hs : x.step m = some x') : x'.Disordered (sent ++ m.sent) := by
  obtain ⟨taken, hsent, hperm⟩ := h.sent
  cases (effect_of_step h.round hs).1 with
  | pushed => exact hover.elim
  | sent => exact hover.elim
  | @took _ b rest _ hq hiff _ hm =>
    obtain ⟨b₁, hb₁⟩ := List.exists_mem_of_ne_nil _ (hiff.mp hover)
    refine ⟨b₁, b, ?_, ?_⟩
    · have hmem : b₁ ∈ taken := hperm.mem_iff.mpr (by simp [line, hb₁])
      rw [hm, List.append_nil, hsent, hq]
      exact (List.singleton_sublist.mpr hmem).append (List.singleton_sublist.mpr (by simp))
    · have hsub : [b, b₁].Sublist ([b] ++ rights x.shared) :=
        (List.Sublist.refl [b]).append (List.singleton_sublist.mpr hb₁)
      refine hsub.trans ?_
      simp only [line, rights_append, rights_inr, List.append_assoc]
      exact (List.sublist_append_right _ _).trans (List.sublist_append_right _ _)
  | kept _ _ _ hnot _ _ => exact absurd hover hnot

/-- Nothing brings two items back in order. -/
theorem Disordered.step (h : x.Disordered sent) (hround : x.Round) (hs : x.step m = some x') :
    x'.Disordered (sent ++ m.sent) := by
  obtain ⟨b, b', hsent, hline⟩ := h
  refine ⟨b, b', hsent.trans (List.sublist_append_left _ _), hline.trans ?_⟩
  cases (effect_of_step hround hs).1 with
  | pushed => simp [line]
  | sent => exact .refl _
  | took _ _ _ _ =>
    simp only [line, rights_append, List.append_assoc]
    exact ((List.sublist_append_right _ _).append_left _).append_left _
  | kept _ hr _ _ _ _ => rw [hr]

end Step

/-! ## Runs -/

section Run

variable {x x' : Exchange α β} {moves : List (Move α β)} {pushed : List α} {sent : List β}

theorem Traced.run (h : x.Traced pushed sent)
    (hrun : BlipMQ.run Exchange.step x moves = some x') :
    x'.Traced (pushed ++ pushes moves) (sent ++ sends moves) := by
  induction moves generalizing x pushed sent with
  | nil =>
    cases hrun
    simpa [pushes, sends] using h
  | cons m moves ih =>
    obtain ⟨t, ht, hrest⟩ := run_cons.mp hrun
    simpa [pushes, sends] using ih (h.step ht) hrest

theorem InOrder.run (h : x.InOrder sent) (htraced : x.Traced pushed sent)
    (hmeets : Meets Exchange.step (fun x m => ¬ x.Overtakes m) x moves)
    (hrun : BlipMQ.run Exchange.step x moves = some x') : x'.InOrder (sent ++ sends moves) := by
  induction moves generalizing x pushed sent with
  | nil =>
    cases hrun
    simpa [sends] using h
  | cons m moves ih =>
    obtain ⟨t, ht, hrest⟩ := run_cons.mp hrun
    have hnext := ih (h.step htraced.round hmeets.1 ht) (htraced.step ht) (hmeets.2 t ht) hrest
    simpa [sends] using hnext

theorem Disordered.run (h : x.Disordered sent) (htraced : x.Traced pushed sent)
    (hrun : BlipMQ.run Exchange.step x moves = some x') : x'.Disordered (sent ++ sends moves) := by
  induction moves generalizing x pushed sent with
  | nil =>
    cases hrun
    simpa [sends] using h
  | cons m moves ih =>
    obtain ⟨t, ht, hrest⟩ := run_cons.mp hrun
    simpa [sends] using ih (h.step htraced.round ht) (htraced.step ht) hrest

/-- **Conservation**: each item that was pushed or sent is in one place, as often
as it came in, and the first producer's items are in their order. -/
theorem conserved (hrun : run step start moves = some x) :
    (x.line ++ x.queue.map Sum.inr).Perm ((pushes moves).map Sum.inl ++ (sends moves).map Sum.inr) ∧
      lefts x.line = pushes moves := by
  obtain ⟨-, hpushed, taken, hsent, hperm⟩ := Traced.start.run hrun
  simp only [List.nil_append] at hpushed hsent
  refine ⟨?_, hpushed⟩
  rw [hsent, List.map_append, ← List.append_assoc, ← hpushed]
  refine ((perm_lefts_rights x.line).trans ?_).append_right _
  exact (hperm.symm.map _).append_left _

/-- **Order of the queue's items**: it is kept if no move overtakes. -/
theorem inOrder_of_meets (hrun : run step start moves = some x)
    (hmeets : Meets step (fun x m => ¬ x.Overtakes m) start moves) : x.InOrder (sends moves) :=
  InOrder.run (show (start : Exchange α β).InOrder [] from rfl) Traced.start hmeets hrun

/-- And it is lost if one does. -/
theorem disordered_of_not_meets (hrun : run step start moves = some x)
    (hover : ¬ Meets step (fun x m => ¬ x.Overtakes m) start moves) :
    x.Disordered (sends moves) := by
  suffices h : ∀ (y : Exchange α β) pushed sent, y.Traced pushed sent → run step y moves = some x →
      ¬ Meets step (fun x m => ¬ x.Overtakes m) y moves → x.Disordered (sent ++ sends moves) from
    h start [] [] Traced.start hrun hover
  clear hrun hover
  induction moves with
  | nil => exact fun _ _ _ _ _ hnot => absurd trivial hnot
  | cons m moves ih =>
    intro y pushed sent htraced hrun hnot
    obtain ⟨t, ht, hrest⟩ := run_cons.mp hrun
    have hsends : sent ++ sends (m :: moves) = sent ++ m.sent ++ sends moves := by simp [sends]
    rw [hsends]
    by_cases hm : y.Overtakes m
    · exact Disordered.run (htraced.disordered hm ht) (htraced.step ht) hrest
    · refine ih t _ _ (htraced.step ht) hrest fun hmeets => hnot ⟨hm, fun u hu => ?_⟩
      rwa [← Option.some.inj (ht.symm.trans hu)]

end Run

end Exchange

end BlipMQ
