import BlipMQ.Lib.Bytes

/-!
# Decoding a byte stream item by item

A decoder looks at the front of a buffer and finds an item, an error, or
too few bytes. Where more bytes behind the buffer cannot change an item or
an error it has found, a reader that decodes after every read sees the
items of the whole stream, however the stream is cut into reads.
-/

namespace BlipMQ

/-- A decoder of items at the front of a buffer, with what is left behind them. -/
structure StreamDecoder (α ε : Type) where
  decode : Bytes → Except ε (Option (α × Bytes))
  shrinks : ∀ {buf rest a}, decode buf = .ok (some (a, rest)) → rest.length < buf.length
  item_append : ∀ {buf rest a} (more : Bytes), decode buf = .ok (some (a, rest)) →
    decode (buf ++ more) = .ok (some (a, rest ++ more))
  error_append : ∀ {buf e} (more : Bytes), decode buf = .error e →
    decode (buf ++ more) = .error e

namespace StreamDecoder

variable {α ε : Type} (d : StreamDecoder α ε)

/-- Decodes until bytes are missing or an error stops it: the items, and the
error or what is left. -/
def drain (buf : Bytes) : List α × Except ε Bytes :=
  match _h : d.decode buf with
  | .error e => ([], .error e)
  | .ok none => ([], .ok buf)
  | .ok (some (a, rest)) =>
    let out := drain rest
    (a :: out.1, out.2)
termination_by buf.length
decreasing_by exact d.shrinks _h

/-- The items found so far, in front of what comes next. -/
def andThen (first : List α × Except ε Bytes) (next : Bytes → List α × Except ε Bytes) :
    List α × Except ε Bytes :=
  match first.2 with
  | .error e => (first.1, .error e)
  | .ok rest => (first.1 ++ (next rest).1, (next rest).2)

/-- A reader: each read is appended to the buffer and the buffer is drained. A
read of no bytes is the end of the stream. -/
def readLoop : Bytes → List Bytes → List α × Except ε Bytes
  | buf, [] => ([], .ok buf)
  | buf, chunk :: chunks =>
    if chunk = [] then ([], .ok buf)
    else andThen (d.drain (buf ++ chunk)) fun rest => readLoop rest chunks

/-- What the reads deliver before the end of the stream. -/
def streamOf (chunks : List Bytes) : Bytes := (chunks.takeWhile (· ≠ [])).flatten

variable {d} {buf rest : Bytes} {a : α} {e : ε}

theorem drain_error (h : d.decode buf = .error e) : d.drain buf = ([], .error e) := by
  rw [drain]
  split <;> simp_all

theorem drain_none (h : d.decode buf = .ok none) : d.drain buf = ([], .ok buf) := by
  rw [drain]
  split <;> simp_all

theorem drain_item (h : d.decode buf = .ok (some (a, rest))) :
    d.drain buf = (a :: (d.drain rest).1, (d.drain rest).2) := by
  rw [drain]
  split <;> simp_all

/-- What is left over is the front of an item that is not complete. -/
theorem decode_of_drain (h : (d.drain buf).2 = .ok rest) : d.decode rest = .ok none := by
  induction buf using drain.induct d with
  | case1 buf e hd =>
    rw [drain_error hd] at h
    cases h
  | case2 buf hd =>
    rw [drain_none hd] at h
    cases h
    exact hd
  | case3 buf a tail hd ih =>
    rw [drain_item hd] at h
    exact ih h

/-- **Draining a buffer and more** is draining the buffer and then what it left,
with the rest behind it. -/
theorem drain_append (d : StreamDecoder α ε) (buf more : Bytes) :
    d.drain (buf ++ more) = andThen (d.drain buf) fun rest => d.drain (rest ++ more) := by
  induction buf using drain.induct d with
  | case1 buf e hd =>
    rw [drain_error hd, drain_error (d.error_append more hd)]
    rfl
  | case2 buf hd =>
    rw [drain_none hd]
    rfl
  | case3 buf a tail hd ih =>
    rw [drain_item hd, drain_item (d.item_append more hd), ih]
    unfold andThen
    cases (d.drain tail).2 <;> rfl

/-- The reader from a buffer that holds no whole item. -/
theorem readLoop_eq_drain (chunks : List Bytes) (hbuf : d.decode buf = .ok none) :
    d.readLoop buf chunks = d.drain (buf ++ streamOf chunks) := by
  induction chunks generalizing buf with
  | nil =>
    rw [readLoop, streamOf, List.takeWhile_nil, List.flatten_nil, List.append_nil, drain_none hbuf]
  | cons chunk chunks ih =>
    rw [readLoop]
    by_cases hempty : chunk = []
    · rw [if_pos hempty, streamOf, List.takeWhile_cons_of_neg (by simpa using hempty),
        List.flatten_nil, List.append_nil, drain_none hbuf]
    · have hstream : streamOf (chunk :: chunks) = chunk ++ streamOf chunks := by
        rw [streamOf, List.takeWhile_cons_of_pos (by simpa using hempty), List.flatten_cons]
        rfl
      rw [if_neg hempty, hstream, ← List.append_assoc, drain_append d (buf ++ chunk)]
      unfold andThen
      cases hout : (d.drain (buf ++ chunk)).2 with
      | error e => rfl
      | ok rest => simp only [ih (decode_of_drain hout)]

/-- Draining items that were written one after the other gives them back. -/
theorem drain_flatMap {encode : α → Bytes} (hnil : d.decode [] = .ok none) (items : List α)
    (h : ∀ a ∈ items, ∀ more, d.decode (encode a ++ more) = .ok (some (a, more))) :
    d.drain (items.flatMap encode) = (items, .ok []) := by
  induction items with
  | nil => exact drain_none hnil
  | cons a items ih =>
    rw [List.flatMap_cons, drain_item (h a (by simp) _), ih fun b hb => h b (by simp [hb])]

end StreamDecoder

end BlipMQ
