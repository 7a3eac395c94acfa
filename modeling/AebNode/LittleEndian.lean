import Mathlib

/-! Little-endian byte strings as numbers, in both directions. -/
namespace AebNode.LittleEndian

abbrev Bytes := List UInt8

/-- The number a byte string denotes, least significant byte first. -/
def value : Bytes → ℕ
  | [] => 0
  | b :: bs => b.toNat + 256 * value bs

def bytes : ℕ → ℕ → Bytes
  | 0, _ => []
  | n + 1, v => UInt8.ofNat v :: bytes n (v / 256)

@[simp] theorem bytes_length (n v : ℕ) : (bytes n v).length = n := by
  induction n generalizing v with
  | zero => rfl
  | succ n ih => simp [bytes, ih]

theorem value_lt (bs : Bytes) : value bs < 256 ^ bs.length := by
  induction bs with
  | nil => simp [value]
  | cons b bs ih =>
    have hb := b.toNat_lt
    simp only [value, List.length_cons, pow_succ]
    omega

theorem value_bytes (n v : ℕ) : value (bytes n v) = v % 256 ^ n := by
  induction n generalizing v with
  | zero => simp [bytes, value, Nat.mod_one]
  | succ n ih =>
    simp only [bytes, value, ih, UInt8.toNat_ofNat', pow_succ']
    exact (Nat.mod_mul).symm

theorem bytes_value (bs : Bytes) : bytes bs.length (value bs) = bs := by
  induction bs with
  | nil => rfl
  | cons b bs ih =>
    have hb := b.toNat_lt
    have hlow : UInt8.ofNat (b.toNat + 256 * value bs) = b := by
      apply UInt8.toNat_inj.mp
      rw [UInt8.toNat_ofNat']
      omega
    have hhigh : (b.toNat + 256 * value bs) / 256 = value bs := by omega
    simp only [List.length_cons, value, bytes, hlow, hhigh, ih]

theorem value_append_singleton (bs : Bytes) (b : UInt8) :
    value (bs ++ [b]) = value bs + 256 ^ bs.length * b.toNat := by
  induction bs with
  | nil => simp [value]
  | cons c bs ih =>
    simp only [List.cons_append, value, ih, List.length_cons, pow_succ]
    ring

/-- The number stored in `n` bytes from `offset` on; bytes past the end do not count. -/
def field (buffer : Bytes) (offset n : ℕ) : ℕ := value ((buffer.drop offset).take n)

theorem field_lt (buffer : Bytes) (offset n : ℕ) : field buffer offset n < 256 ^ n :=
  (value_lt _).trans_le (Nat.pow_le_pow_right (by norm_num) (by simp))

theorem field_drop (buffer : Bytes) (q offset n : ℕ) :
    field (buffer.drop q) offset n = field buffer (q + offset) n := by
  rw [field, field, List.drop_drop]

theorem field_append_left {xs : Bytes} (ys : Bytes) {offset n : ℕ} (h : offset + n ≤ xs.length) :
    field (xs ++ ys) offset n = field xs offset n := by
  unfold field
  rw [List.drop_append_of_le_length (by omega), List.take_append_of_le_length (by simp; omega)]

theorem field_append_right {xs : Bytes} (ys : Bytes) {offset n : ℕ} (h : xs.length ≤ offset) :
    field (xs ++ ys) offset n = field ys (offset - xs.length) n := by
  unfold field
  rw [List.drop_append, List.drop_eq_nil_of_le h, List.nil_append]

theorem field_bytes_past {m offset : ℕ} (h : m ≤ offset) (v : ℕ) (ys : Bytes) (n : ℕ) :
    field (bytes m v ++ ys) offset n = field ys (offset - m) n := by
  rw [field_append_right ys (by rwa [bytes_length]), bytes_length]

theorem field_bytes (n v : ℕ) (ys : Bytes) : field (bytes n v ++ ys) 0 n = v % 256 ^ n := by
  rw [field_append_left ys (by simp)]
  simp [field, List.take_of_length_le, value_bytes]

theorem bytes_field {buffer : Bytes} {offset n : ℕ} (h : offset + n ≤ buffer.length) :
    bytes n (field buffer offset n) = (buffer.drop offset).take n := by
  have hl : ((buffer.drop offset).take n).length = n := by simp; omega
  conv_lhs => rw [← hl]
  exact hl.symm ▸ bytes_value ((buffer.drop offset).take n)

/-- A buffer from `offset` on is the field there followed by the rest. -/
theorem drop_eq_bytes_append {buffer : Bytes} {offset n : ℕ} (h : offset + n ≤ buffer.length) :
    buffer.drop offset = bytes n (field buffer offset n) ++ buffer.drop (offset + n) := by
  rw [bytes_field h, ← List.drop_drop, List.take_append_drop]

end AebNode.LittleEndian
