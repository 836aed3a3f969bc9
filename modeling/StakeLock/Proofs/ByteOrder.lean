import Mathlib.Data.List.Lex
import StakeLock.Store

/-!
# Order of addresses by bytes

Addresses are compared by their code points. That is the order of their UTF-8
bytes: the encodings of two characters differ within both, and where they first
differ the smaller character has the smaller byte.
-/

namespace StakeLock

namespace ByteOrder

theorem byte_lt_iff {m n : Nat} (hm : m < 256) (hn : n < 256) :
    UInt8.ofNat m < UInt8.ofNat n ↔ m < n := by
  rw [UInt8.lt_iff_toNat_lt, UInt8.toNat_ofNat_of_lt' hm, UInt8.toNat_ofNat_of_lt' hn]

theorem byte_inj {m n : Nat} (hm : m < 256) (hn : n < 256) :
    UInt8.ofNat m = UInt8.ofNat n ↔ m = n := by
  rw [← UInt8.toNat_inj, UInt8.toNat_ofNat_of_lt' hm, UInt8.toNat_ofNat_of_lt' hn]

/-- The encodings of two characters decide the order, whatever follows them. -/
theorem utf8EncodeChar_append_lt {c d : Char} (h : c < d) (r s : List UInt8) :
    String.utf8EncodeChar c ++ r < String.utf8EncodeChar d ++ s := by
  have hlt : c.val.toNat < d.val.toNat := h
  have hd : d.val.toNat < 1114112 := by
    rcases d.valid with hd | hd
    · omega
    · exact hd.2
  unfold String.utf8EncodeChar
  generalize c.val.toNat = m at hlt
  generalize d.val.toNat = n at hlt hd
  have hdiv : ∀ k, k / 4096 = k / 64 / 64 ∧ k / 262144 = k / 64 / 64 / 64 := by
    intro k
    simp only [Nat.div_div_eq_div_mul, and_self]
  simp only [(hdiv m).1, (hdiv m).2, (hdiv n).1, (hdiv n).2]
  split_ifs <;> simp (disch := omega) only [List.cons_append, List.nil_append,
    List.cons_lt_cons_iff, byte_lt_iff, byte_inj] <;> omega

theorem flatMap_utf8EncodeChar_lt {l m : List Char} (h : l < m) :
    l.flatMap String.utf8EncodeChar < m.flatMap String.utf8EncodeChar := by
  induction h with
  | nil =>
    rename_i d ds
    rw [List.flatMap_nil, List.flatMap_cons]
    cases henc : String.utf8EncodeChar d with
    | nil => exact absurd henc String.utf8EncodeChar_ne_nil
    | cons _ _ => exact .nil
  | rel h => exact utf8EncodeChar_append_lt h _ _
  | cons _ ih => exact List.append_left_lt ih

end ByteOrder

namespace Address

def bytes (a : Address) : List UInt8 := a.text.toUTF8.data.toList

theorem bytes_eq (a : Address) : a.bytes = a.text.toList.flatMap String.utf8EncodeChar := by
  unfold bytes
  change a.text.toByteArray.data.toList = _
  rw [← String.utf8Encode_toList]
  exact List.toList_data_toByteArray

theorem bytes_lt_of_compare {a b : Address} (h : compare a b = .lt) : a.bytes < b.bytes := by
  rw [bytes_eq, bytes_eq]
  apply ByteOrder.flatMap_utf8EncodeChar_lt
  rw [compare_def] at h
  exact String.lt_iff.1 (compareOfLessAndEq_eq_lt.1 h)

/-- The order of addresses is that of their bytes. -/
theorem compare_eq_lt_iff {a b : Address} : compare a b = .lt ↔ a.bytes < b.bytes := by
  refine ⟨bytes_lt_of_compare, fun h => ?_⟩
  cases hc : compare a b with
  | lt => rfl
  | eq =>
    rw [Std.LawfulEqOrd.eq_of_compare hc] at h
    exact absurd h (List.lt_irrefl _)
  | gt => exact absurd h (List.lt_asymm (bytes_lt_of_compare (Std.OrientedCmp.lt_of_gt hc)))

end Address

theorem QueueKey.compare_eq_lt_iff {a b : QueueKey} : compare a b = .lt ↔
    a.time < b.time ∨ a.time = b.time ∧ a.address.bytes < b.address.bytes := by
  rw [compare_def, Ordering.then_eq_lt, Address.compare_eq_lt_iff, Nat.compare_eq_lt,
    Nat.compare_eq_eq]

theorem QueueKey.time_le_of_compare {a b : QueueKey} (h : compare a b = .lt) :
    a.time ≤ b.time := by
  rcases compare_eq_lt_iff.1 h with htime | ⟨htime, -⟩
  · exact Nat.le_of_lt htime
  · exact Nat.le_of_eq htime

end StakeLock
