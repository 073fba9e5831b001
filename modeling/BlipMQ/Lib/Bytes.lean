import Mathlib.Algebra.Ring.Nat
import Mathlib.Data.List.Basic

/-!
# Bytes

Fixed-width integers as byte strings, the region write of a random-access
file, and the flip of one stored bit. Nothing here knows what the bytes
are for.
-/

namespace BlipMQ

abbrev Bytes := List UInt8

/-! ## Little- and big-endian integers -/

/-- The `width` low bytes of `v`, least significant first. -/
def leBytes : Nat → Nat → Bytes
  | 0, _ => []
  | width + 1, v => UInt8.ofNat (v % 256) :: leBytes width (v / 256)

/-- The integer a little-endian byte string stands for. -/
def leNat : Bytes → Nat
  | [] => 0
  | b :: bs => b.toNat + 256 * leNat bs

/-- The `width` low bytes of `v`, most significant first. -/
def beBytes (width v : Nat) : Bytes := (leBytes width v).reverse

/-- The integer a big-endian byte string stands for. -/
def beNat (bs : Bytes) : Nat := leNat bs.reverse

@[simp] theorem leBytes_length (width v : Nat) : (leBytes width v).length = width := by
  induction width generalizing v with
  | zero => rfl
  | succ width ih => simp [leBytes, ih]

@[simp] theorem beBytes_length (width v : Nat) : (beBytes width v).length = width := by
  simp [beBytes]

theorem leNat_lt (bs : Bytes) : leNat bs < 256 ^ bs.length := by
  induction bs with
  | nil => simp [leNat]
  | cons b bs ih =>
    have hb := b.toNat_lt
    simp only [leNat, List.length_cons, Nat.pow_succ]
    omega

variable {file : Bytes} {width : Nat}

theorem leNat_leBytes {v : Nat} (h : v < 256 ^ width) : leNat (leBytes width v) = v := by
  induction width generalizing v with
  | zero => simp at h; simp [leBytes, leNat, h]
  | succ width ih =>
    have hq : v / 256 < 256 ^ width := by
      rw [Nat.pow_succ] at h
      exact Nat.div_lt_of_lt_mul (by omega)
    have hr : (UInt8.ofNat (v % 256)).toNat = v % 256 := by
      simp
    simp only [leBytes, leNat, hr, ih hq]
    omega

theorem leBytes_leNat (bs : Bytes) : leBytes bs.length (leNat bs) = bs := by
  induction bs with
  | nil => rfl
  | cons b bs ih =>
    have hb := b.toNat_lt
    have hq : (b.toNat + 256 * leNat bs) / 256 = leNat bs := by omega
    have hr : (b.toNat + 256 * leNat bs) % 256 = b.toNat := by omega
    simp only [leNat, List.length_cons, leBytes, hq, hr, ih]
    simp

variable {bs : Bytes} {pos : Nat}

theorem leNat_inj {as : Bytes} (hlen : as.length = bs.length) (h : leNat as = leNat bs) :
    as = bs := by
  rw [← leBytes_leNat as, ← leBytes_leNat bs, hlen, h]

theorem beNat_beBytes {v : Nat} (h : v < 256 ^ width) : beNat (beBytes width v) = v := by
  simp [beNat, beBytes, leNat_leBytes h]

theorem beNat_lt (bs : Bytes) : beNat bs < 256 ^ bs.length := by
  have h := leNat_lt bs.reverse
  rwa [List.length_reverse] at h

theorem beBytes_beNat (bs : Bytes) : beBytes bs.length (beNat bs) = bs := by
  have h := leBytes_leNat bs.reverse
  rw [List.length_reverse] at h
  rw [beBytes, beNat, h, List.reverse_reverse]

/-! ## Fields -/

/-- What it means that `width` bytes at the front are read as the number `v`. -/
theorem take_beNat_iff {v : Nat} {rest : Bytes} :
    (width ≤ bs.length ∧ beNat (bs.take width) = v ∧ bs.drop width = rest) ↔
      v < 256 ^ width ∧ bs = beBytes width v ++ rest := by
  constructor
  · rintro ⟨hlen, rfl, rfl⟩
    have htake : (bs.take width).length = width := List.length_take_of_le hlen
    have hlt := beNat_lt (bs.take width)
    have hbytes := beBytes_beNat (bs.take width)
    rw [htake] at hlt hbytes
    rw [hbytes, List.take_append_drop]
    exact ⟨hlt, rfl⟩
  · rintro ⟨hlt, rfl⟩
    rw [List.take_left' (beBytes_length ..), List.drop_left' (beBytes_length ..)]
    refine ⟨?_, beNat_beBytes hlt, rfl⟩
    simp

theorem split_number (width : Nat) (h : width ≤ bs.length) :
    beNat (bs.take width) < 256 ^ width ∧
      bs = beBytes width (beNat (bs.take width)) ++ bs.drop width :=
  take_beNat_iff.mp ⟨h, rfl, rfl⟩

/-- What it means that `len` bytes at the front are read as they are. -/
theorem take_drop_iff {len : Nat} {field rest : Bytes} :
    (len ≤ bs.length ∧ bs.take len = field ∧ bs.drop len = rest) ↔
      field.length = len ∧ bs = field ++ rest := by
  constructor
  · rintro ⟨hlen, rfl, rfl⟩
    exact ⟨List.length_take_of_le hlen, (List.take_append_drop len bs).symm⟩
  · rintro ⟨rfl, rfl⟩
    refine ⟨?_, List.take_left, List.drop_left⟩
    simp

theorem drop_eq_headD_cons {n : Nat} (h : n < bs.length) :
    bs.drop n = (bs.drop n).headD 0 :: bs.drop (n + 1) := by
  rw [List.drop_eq_getElem_cons h]
  rfl

/-- A field behind its length, which is a number of two bytes. -/
def sized (field : Bytes) : Bytes := beBytes 2 field.length ++ field

@[simp] theorem sized_length (field : Bytes) : (sized field).length = 2 + field.length := by
  simp [sized]

/-- A length at the front, and as many bytes behind it, are a field behind its
length. -/
theorem split_sized (h : 2 ≤ bs.length) (hlen : beNat (bs.take 2) ≤ (bs.drop 2).length) :
    ((bs.drop 2).take (beNat (bs.take 2))).length < 256 ^ 2 ∧
      bs = sized ((bs.drop 2).take (beNat (bs.take 2))) ++
        (bs.drop 2).drop (beNat (bs.take 2)) := by
  obtain ⟨hlt, hbs⟩ := split_number 2 h
  rw [sized, List.length_take_of_le hlen, List.append_assoc, List.take_append_drop]
  exact ⟨hlt, hbs⟩

/-- At `pos` stands a length, and the field is exactly the bytes it announces. -/
def Announced (bs : Bytes) (pos : Nat) (field : Bytes) : Prop :=
  beNat ((bs.drop pos).take 2) = field.length ∧ (bs.drop (pos + 2)).take field.length = field

theorem announced_sized {field after : Bytes} (hlen : field.length < 256 ^ 2)
    (h : bs.drop pos = sized field ++ after) :
    Announced bs pos field ∧ bs.drop (pos + 2 + field.length) = after := by
  rw [sized, List.append_assoc] at h
  have hfield : bs.drop (pos + 2) = field ++ after := by
    rw [← List.drop_drop, h, List.drop_left' (beBytes_length ..)]
  refine ⟨⟨?_, ?_⟩, ?_⟩
  · rw [h, List.take_left' (beBytes_length ..), beNat_beBytes hlen]
  · rw [hfield, List.take_left]
  · rw [← List.drop_drop, hfield, List.drop_left]

/-- A decoder of two steps succeeds just if both do. -/
theorem bind_eq_ok {ε α β : Type} {x : Except ε α} {f : α → Except ε β} {b : β} :
    x >>= f = .ok b ↔ ∃ a, x = .ok a ∧ f a = .ok b := by
  cases x <;> simp [Bind.bind, Except.bind]

/-- A decoder behind a check succeeds just if the check passes and it does. -/
theorem guard_eq_ok {ε α : Type} {c : Prop} [Decidable c] {e : ε} {x : Except ε α} {a : α} :
    (if c then .error e else x) = .ok a ↔ ¬ c ∧ x = .ok a := by
  by_cases h : c <;> simp [h]

theorem map_eq_ok {ε α β : Type} {x : Except ε α} {f : α → β} {b : β} :
    x.map f = .ok b ↔ ∃ a, x = .ok a ∧ f a = b := by
  cases x <;> simp [Except.map]

/-- What holds of a list and of what is added at its end holds of the longer list. -/
theorem forall_mem_concat {α : Type*} {p : α → Prop} {xs : List α} {x : α}
    (h : ∀ y ∈ xs, p y) (hx : p x) : ∀ y ∈ xs ++ [x], p y :=
  List.forall_mem_append.mpr ⟨h, List.forall_mem_singleton.mpr hx⟩

/-! ## Text -/

/-- The UTF-8 bytes of a string. -/
def utf8 (s : String) : Bytes := s.toByteArray.data.toList

/-- The string a byte string encodes, if it is valid UTF-8. -/
def fromUtf8 (bs : Bytes) : Option String := String.fromUTF8? ⟨bs.toArray⟩

@[simp] theorem fromUtf8_utf8 (s : String) : fromUtf8 (utf8 s) = some s := by
  simp [fromUtf8, utf8, String.fromUTF8?, s.isValidUTF8, String.fromUTF8]

theorem utf8_of_fromUtf8 {s : String} (h : fromUtf8 bs = some s) : utf8 s = bs := by
  unfold fromUtf8 String.fromUTF8? at h
  split at h
  · cases h
    simp [utf8, String.fromUTF8]
  · cases h

theorem fromUtf8_eq_some {s : String} : fromUtf8 bs = some s ↔ bs = utf8 s := by
  constructor
  · intro h
    exact (utf8_of_fromUtf8 h).symm
  · rintro rfl
    exact fromUtf8_utf8 s

theorem utf8_append (s t : String) : utf8 (s ++ t) = utf8 s ++ utf8 t := by
  simp [utf8, String.toByteArray_append, ByteArray.data_append]

theorem utf8_ofList (cs : List Char) :
    utf8 (String.ofList cs) = cs.flatMap String.utf8EncodeChar := by
  simp [utf8, String.toByteArray_ofList, List.utf8Encode]

/-- A character has at most four bytes. -/
theorem length_utf8_ofList_le (cs : List Char) :
    (utf8 (String.ofList cs)).length ≤ 4 * cs.length := by
  rw [utf8_ofList]
  induction cs with
  | nil => simp
  | cons c cs ih =>
    rw [List.flatMap_cons, List.length_append, List.length_cons, String.length_utf8EncodeChar]
    have hsize := Char.utf8Size_le_four c
    omega

/-! ## Writing a region of a file -/

/-- A `write_all` of `data` at cursor `pos`: bytes under the region are
replaced, a gap past the end reads as zeros. -/
def writeAt (file : Bytes) (pos : Nat) (data : Bytes) : Bytes :=
  file.take pos ++ List.replicate (pos - file.length) 0 ++ data ++
    file.drop (pos + data.length)

theorem writeAt_append (front back data : Bytes) :
    writeAt (front ++ back) front.length data = front ++ data ++ back.drop data.length := by
  simp [writeAt]

theorem writeAt_end (bytes data : Bytes) : writeAt bytes bytes.length data = bytes ++ data := by
  have h := writeAt_append bytes [] data
  simpa using h

/-- What is in front of the region stays. -/
theorem prefix_writeAt {p : Bytes} (h : p <+: file) (hpos : p.length ≤ pos) (data : Bytes) :
    p <+: writeAt file pos data := by
  have htake : p <+: file.take pos := List.prefix_take_iff.mpr ⟨h, hpos⟩
  simp only [writeAt, List.append_assoc]
  exact htake.trans (List.prefix_append _ _)

theorem take_writeAt (hpos : pos ≤ file.length) (data : Bytes) :
    (writeAt file pos data).take (pos + data.length) = file.take pos ++ data := by
  have hlen : (file.take pos ++ data).length = pos + data.length := by simp [hpos]
  simp only [writeAt, Nat.sub_eq_zero_of_le hpos, List.replicate_zero, List.append_nil]
  rw [← hlen, List.take_left]

theorem length_writeAt_le (hpos : pos ≤ file.length) (data : Bytes) :
    pos + data.length ≤ (writeAt file pos data).length := by
  simp only [writeAt, List.length_append, List.length_take, List.length_replicate]
  omega

/-! ## Flipping one bit -/

/-- The byte with bit `k` inverted. -/
def flipBit (k : Nat) (b : UInt8) : UInt8 := b ^^^ (1 <<< UInt8.ofNat k)

/-- The byte string with bit `k` of the byte at `pos` inverted. -/
def flipAt (bs : Bytes) (pos k : Nat) : Bytes := bs.modify pos (flipBit k)

theorem flipBit_ne {k : Nat} (hk : k < 8) (b : UInt8) : flipBit k b ≠ b := by
  intro h
  have hz : (1 : UInt8) <<< UInt8.ofNat k = 0 := by
    have := congrArg (b ^^^ ·) h
    simpa [flipBit, ← UInt8.xor_assoc] using this
  have hnz : ∀ i : Fin 8, (1 : UInt8) <<< UInt8.ofNat i.val ≠ 0 := by decide
  exact hnz ⟨k, hk⟩ hz

@[simp] theorem flipAt_length (bs : Bytes) (pos k : Nat) :
    (flipAt bs pos k).length = bs.length := by
  simp [flipAt]

theorem flipAt_append_left {as : Bytes} (h : pos < as.length) (bs : Bytes) (k : Nat) :
    flipAt (as ++ bs) pos k = flipAt as pos k ++ bs := by
  induction as generalizing pos with
  | nil => simp at h
  | cons a as ih =>
    cases pos with
    | zero => rfl
    | succ pos =>
      have h' : pos < as.length := by simpa using h
      simpa [flipAt] using ih h'

theorem flipAt_append_right (as bs : Bytes) (pos k : Nat) :
    flipAt (as ++ bs) (as.length + pos) k = as ++ flipAt bs pos k := by
  induction as with
  | nil => simp [flipAt]
  | cons a as ih =>
    rw [List.cons_append, List.length_cons, show as.length + 1 + pos = (as.length + pos) + 1
      from by omega]
    simpa [flipAt] using ih

theorem flipAt_ne {k : Nat} (hpos : pos < bs.length) (hk : k < 8) : flipAt bs pos k ≠ bs := by
  intro h
  have hget : (flipAt bs pos k)[pos]? = bs[pos]? := by rw [h]
  rw [flipAt, List.getElem?_modify_eq, List.getElem?_eq_getElem hpos] at hget
  exact flipBit_ne hk _ (Option.some.inj hget)

end BlipMQ
