import BlipMQ.Lib.Bytes

/-!
# Reading from a buffer

A cursor over a byte string whose reads panic where the bytes run out, as
the reads of a `Buf` do. A computation ends in a value, in an error of its
own, or in a panic; one that looks before it reads does not panic. An
allocation that fails ends it like a panic. Here are the reads and what each
of them does when there is enough to read.
-/

namespace BlipMQ

/-- A computation that reads at the front of a byte string; `none` is a panic. -/
abbrev Reader (ε : Type) := StateT Bytes (ExceptT ε Option)

namespace Reader

variable {ε α β : Type}

/-- How the computation ends when it starts at the front of `bs`. -/
def run (m : Reader ε α) (bs : Bytes) : Option (Except ε (α × Bytes)) := m bs

/-- The result of a computation, whatever is left of the bytes. -/
def result (m : Reader ε α) (bs : Bytes) : Option (Except ε α) :=
  (m.run bs).map (Except.map Prod.fst)

/-! ## The reads -/

/-- An early return with an error where the condition holds. -/
def failIf (c : Prop) [Decidable c] (e : ε) : Reader ε Unit := fun bs =>
  if c then some (.error e) else some (.ok ((), bs))

/-- The `?` behind a call that does not read. -/
def propagate (x : Except ε α) : Reader ε α := fun bs => some (x.map fun a => (a, bs))

/-- All that is left; the cursor stays. -/
def rest : Reader ε Bytes := fun bs => some (.ok (bs, bs))

def remaining : Reader ε Nat := fun bs => some (.ok (bs.length, bs))

/-- `get_u16`, `get_u32` and `get_u64`. -/
def getUInt (width : Nat) : Reader ε Nat := fun bs =>
  if bs.length < width then none else some (.ok (beNat (bs.take width), bs.drop width))

def getU8 : Reader ε UInt8 := fun bs =>
  if bs.length < 1 then none else some (.ok (bs.headD 0, bs.drop 1))

/-- `copy_to_bytes`, `copy_to_slice` and `split_to`. -/
def copyToBytes (len : Nat) : Reader ε Bytes := fun bs =>
  if bs.length < len then none else some (.ok (bs.take len, bs.drop len))

def advance (len : Nat) : Reader ε Unit := fun bs =>
  if bs.length < len then none else some (.ok ((), bs.drop len))

/-- A range of a byte string, `&whole[lo..hi]`; the cursor stays. -/
def slice (whole : Bytes) (lo hi : Nat) : Reader ε Bytes := fun bs =>
  if lo ≤ hi ∧ hi ≤ whole.length then some (.ok ((whole.take hi).drop lo, bs)) else none

/-- `whole[i]`. -/
def index (whole : Bytes) (i : Nat) : Reader ε UInt8 := fun bs =>
  if i < whole.length then some (.ok ((whole.drop i).headD 0, bs)) else none

/-- An allocation, where `limit` bytes can be had. -/
def allocate (limit size : Nat) : Reader ε Unit := fun bs =>
  if size ≤ limit then some (.ok ((), bs)) else none

/-- Reads from another byte string, with a cursor of its own. -/
def within (whole : Bytes) (m : Reader ε α) : Reader ε α := fun bs =>
  (m.result whole).map (Except.map fun a => (a, bs))

/-! ## How a computation goes on

Each rule says what a computation that begins with this read comes to, if
there is enough to read. -/

section Steps

variable {m : Reader ε α} {f : α → Reader ε β} {bs rest : Bytes} {a : α} {e : ε}

theorem result_bind_ok (h : m.run bs = some (.ok (a, rest))) :
    (m >>= f).result bs = (f a).result rest := by
  show Option.map _ ((m.run bs).bind _) = _
  rw [h]
  rfl

theorem result_bind_error (h : m.run bs = some (.error e)) :
    (m >>= f).result bs = some (.error e) := by
  show Option.map _ ((m.run bs).bind _) = _
  rw [h]
  rfl

theorem result_bind_panic (h : m.run bs = none) : (m >>= f).result bs = none := by
  show Option.map _ ((m.run bs).bind _) = _
  rw [h]
  rfl

/-- What is made of the value of a computation does not depend on what it left. -/
theorem result_bind_pure (m : Reader ε α) (g : α → β) (bs : Bytes) :
    (m >>= fun a => pure (g a)).result bs = (m.result bs).map (Except.map g) := by
  have hresult : m.result bs = (m.run bs).map (Except.map Prod.fst) := rfl
  cases h : m.run bs with
  | none => rw [result_bind_panic h, hresult, h]; rfl
  | some x =>
    cases x with
    | error e => rw [result_bind_error h, hresult, h]; rfl
    | ok x => rw [result_bind_ok h, hresult, h]; rfl

end Steps

section Reads

variable {bs : Bytes} {e : ε}

theorem result_allocate {limit size : Nat} (h : size ≤ limit) (f : Unit → Reader ε β) :
    (allocate limit size >>= f).result bs = (f ()).result bs :=
  result_bind_ok (if_pos h)

theorem result_allocate_not {limit size : Nat} (h : ¬ size ≤ limit) (f : Unit → Reader ε β) :
    (allocate limit size >>= f).result bs = none :=
  result_bind_panic (if_neg h)

/-- The rule for a check. -/
theorem result_check {c : Prop} [Decidable c] {f : Unit → Reader ε β} {x : Option (Except ε β)}
    (h : ¬ c → (f ()).result bs = x) :
    (failIf c e >>= f).result bs = if c then some (.error e) else x := by
  by_cases hc : c
  · rw [if_pos hc]
    exact result_bind_error (if_pos hc)
  · rw [if_neg hc, ← h hc]
    exact result_bind_ok (if_neg hc)

/-- The rule for a check that a decoder makes as well. -/
theorem result_failIf {c : Prop} [Decidable c] {f : Unit → Reader ε β} {x y : Except ε β}
    (hx : x = .error e) (h : ¬ c → (f ()).result bs = some y) :
    (failIf c e >>= f).result bs = some (if c then x else y) := by
  rw [result_check h, apply_ite some, hx]

/-- The rule for `?`. -/
theorem result_propagate {x : Except ε α} {f : α → Reader ε β} {g : α → Except ε β}
    (h : ∀ a, (f a).result bs = some (g a)) :
    (propagate x >>= f).result bs = some (x >>= g) := by
  cases x with
  | error e => rfl
  | ok a => exact h a

theorem result_rest (f : Bytes → Reader ε β) : (rest >>= f).result bs = (f bs).result bs := rfl

theorem result_remaining (f : Nat → Reader ε β) :
    (remaining >>= f).result bs = (f bs.length).result bs := rfl

theorem result_getUInt {width : Nat} (h : width ≤ bs.length) (f : Nat → Reader ε β) :
    (getUInt width >>= f).result bs = (f (beNat (bs.take width))).result (bs.drop width) :=
  result_bind_ok (if_neg (Nat.not_lt_of_le h))

theorem getUInt_result {width : Nat} (h : width ≤ bs.length) :
    (getUInt width : Reader ε Nat).result bs = some (.ok (beNat (bs.take width))) := by
  rw [result, run, getUInt, if_neg (Nat.not_lt_of_le h)]
  rfl

theorem result_getU8 (h : 1 ≤ bs.length) (f : UInt8 → Reader ε β) :
    (getU8 >>= f).result bs = (f (bs.headD 0)).result (bs.drop 1) :=
  result_bind_ok (if_neg (Nat.not_lt_of_le h))

theorem result_copyToBytes {len : Nat} (h : len ≤ bs.length) (f : Bytes → Reader ε β) :
    (copyToBytes len >>= f).result bs = (f (bs.take len)).result (bs.drop len) :=
  result_bind_ok (if_neg (Nat.not_lt_of_le h))

theorem result_advance {len : Nat} (h : len ≤ bs.length) (f : Unit → Reader ε β) :
    (advance len >>= f).result bs = (f ()).result (bs.drop len) :=
  result_bind_ok (if_neg (Nat.not_lt_of_le h))

variable {whole : Bytes}

theorem result_slice {lo hi : Nat} (h : lo ≤ hi) (h' : hi ≤ whole.length) (f : Bytes → Reader ε β) :
    (slice whole lo hi >>= f).result bs = (f ((whole.take hi).drop lo)).result bs :=
  result_bind_ok (if_pos ⟨h, h'⟩)

theorem result_index {i : Nat} (h : i < whole.length) (f : UInt8 → Reader ε β) :
    (index whole i >>= f).result bs = (f ((whole.drop i).headD 0)).result bs :=
  result_bind_ok (if_pos h)

theorem within_result (whole : Bytes) (m : Reader ε α) :
    (within whole m).result bs = m.result whole := by
  rw [result, run, within]
  cases m.result whole with
  | none => rfl
  | some x => cases x <;> rfl

theorem run_within {m : Reader ε α} {x : Except ε α} (h : m.result whole = some x) :
    (within whole m).run bs = some (x.map fun a => (a, bs)) := by
  rw [run, within, h]
  rfl

/-- The rule for reads from another byte string. -/
theorem result_within {m : Reader ε α} {x : Except ε α} {f : α → Reader ε β} {g : α → Except ε β}
    (hm : m.result whole = some x) (h : ∀ a, (f a).result bs = some (g a)) :
    (within whole m >>= f).result bs = some (x >>= g) := by
  cases x with
  | error e => exact result_bind_error (run_within hm)
  | ok a => exact (result_bind_ok (run_within hm)).trans (h a)

end Reads

end Reader

end BlipMQ
