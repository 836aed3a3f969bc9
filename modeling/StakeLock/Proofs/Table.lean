import Mathlib.Algebra.Order.Ring.Nat
import Mathlib.Data.List.Sort
import StakeLock.Table

/-!
# Sums over a table, and its lower part

What an insertion and a removal do to a sum over all entries, and that removing
the keys of some entries one after another leaves the table of the others.
-/

namespace StakeLock

variable {κ ν : Type} [Ord κ]

namespace Entries

def total (f : ν → Nat) (es : List (κ × ν)) : Nat := (es.map fun e => f e.2).sum

/-- The sum of a measure over the entries. -/
def weigh (f : κ → ν → Nat) (es : List (κ × ν)) : Nat := (es.map fun e => f e.1 e.2).sum

variable [Std.LawfulEqOrd κ]

theorem weigh_insert (f : κ → ν → Nat) (k : κ) (v : ν) (es : List (κ × ν)) :
    weigh f (insert k v es) + ((lookup k es).map (f k)).getD 0 = weigh f es + f k v := by
  unfold weigh
  induction es with
  | nil => simp [insert, lookup]
  | cons d ds ih =>
    simp only [insert, lookup]
    cases hcompare : compare k d.1 with
    | lt =>
      simp only [List.map_cons, List.sum_cons, Option.map_none, Option.getD_none]
      omega
    | eq =>
      rw [Std.LawfulEqOrd.eq_of_compare hcompare]
      simp only [List.map_cons, List.sum_cons, Option.map_some, Option.getD_some]
      omega
    | gt =>
      simp only [List.map_cons, List.sum_cons]
      omega

theorem weigh_erase (f : κ → ν → Nat) (k : κ) (es : List (κ × ν)) :
    weigh f (erase k es) + ((lookup k es).map (f k)).getD 0 = weigh f es := by
  unfold weigh
  induction es with
  | nil => simp [erase, lookup]
  | cons d ds ih =>
    simp only [erase, lookup]
    cases hcompare : compare k d.1 with
    | lt =>
      simp only [List.map_cons, List.sum_cons, Option.map_none, Option.getD_none]
      omega
    | eq =>
      rw [Std.LawfulEqOrd.eq_of_compare hcompare]
      simp only [List.map_cons, List.sum_cons, Option.map_some, Option.getD_some]
      omega
    | gt =>
      simp only [List.map_cons, List.sum_cons]
      omega

theorem filter_insert {p : κ × ν → Bool} {k : κ} (v : ν) (hk : ∀ w, ¬p (k, w))
    (es : List (κ × ν)) : (insert k v es).filter p = es.filter p := by
  induction es with
  | nil => simp [insert, hk]
  | cons d ds ih =>
    simp only [insert]
    cases hcompare : compare k d.1 with
    | lt => rw [List.filter_cons, if_neg (hk v)]
    | eq =>
      obtain ⟨key, w⟩ := d
      have := Std.LawfulEqOrd.eq_of_compare hcompare
      subst this
      rw [List.filter_cons, if_neg (hk v), List.filter_cons, if_neg (hk w)]
    | gt => rw [List.filter_cons, List.filter_cons, ih]

omit [Std.LawfulEqOrd κ] in
theorem length_filter_insert_le (p : κ × ν → Bool) (k : κ) (v : ν) (es : List (κ × ν)) :
    ((insert k v es).filter p).length ≤ (es.filter p).length + 1 := by
  induction es with
  | nil => exact List.length_filter_le p [(k, v)]
  | cons d ds ih =>
    simp only [insert]
    cases compare k d.1 with
    | lt =>
      rw [List.filter_cons]
      split
      · exact Nat.le_refl _
      · exact Nat.le_succ _
    | eq =>
      have hrest := ((List.sublist_cons_self d ds).filter p).length_le
      rw [List.filter_cons]
      split
      · simp only [List.length_cons]
        omega
      · omega
    | gt =>
      rw [List.filter_cons, List.filter_cons]
      split
      · simp only [List.length_cons]
        omega
      · exact ih

theorem length_filter_le_insert (p : κ → Bool) (k : κ) (v : ν) (es : List (κ × ν)) :
    (es.filter fun e => p e.1).length ≤ ((insert k v es).filter fun e => p e.1).length := by
  induction es with
  | nil => exact Nat.zero_le _
  | cons d ds ih =>
    simp only [insert]
    cases hcompare : compare k d.1 with
    | lt => exact ((List.sublist_cons_self (k, v) (d :: ds)).filter _).length_le
    | eq =>
      rw [Std.LawfulEqOrd.eq_of_compare hcompare, List.filter_cons, List.filter_cons]
      split <;> exact Nat.le_refl _
    | gt =>
      rw [List.filter_cons, List.filter_cons]
      split
      · exact Nat.succ_le_succ ih
      · exact ih

end Entries

namespace Table

def total (f : ν → Nat) (t : Table κ ν) : Nat := Entries.total f t.entries

/-- The sum of a measure over the entries. -/
def weigh (f : κ → ν → Nat) (t : Table κ ν) : Nat := Entries.weigh f t.entries

@[simp] theorem total_empty (f : ν → Nat) : (empty : Table κ ν).total f = 0 := rfl

def filter (p : κ × ν → Bool) (t : Table κ ν) : Table κ ν :=
  ⟨t.entries.filter p, t.sorted.sublist List.filter_sublist⟩

theorem weigh_filter_add (f : κ → ν → Nat) (p : κ × ν → Bool) (t : Table κ ν) :
    (t.filter fun e => !p e).weigh f + ((t.entries.filter p).map fun e => f e.1 e.2).sum =
      t.weigh f := by
  unfold weigh Entries.weigh filter
  simp only
  induction t.entries with
  | nil => rfl
  | cons e es ih =>
    by_cases hp : p e
    · simp [hp]
      omega
    · simp [hp]
      omega

theorem total_filter_add (f : ν → Nat) (p : κ × ν → Bool) (t : Table κ ν) :
    (t.filter fun e => !p e).total f + ((t.entries.filter p).map fun e => f e.2).sum =
      t.total f :=
  t.weigh_filter_add (fun _ => f) p

variable [Std.LawfulEqOrd κ]

theorem weigh_erase (f : κ → ν → Nat) (t : Table κ ν) (k : κ) :
    (t.erase k).weigh f + ((t.get? k).map (f k)).getD 0 = t.weigh f :=
  Entries.weigh_erase f k t.entries

variable [Std.TransOrd κ]

theorem weigh_insert (f : κ → ν → Nat) (t : Table κ ν) (k : κ) (v : ν) :
    (t.insert k v).weigh f + ((t.get? k).map (f k)).getD 0 = t.weigh f + f k v :=
  Entries.weigh_insert f k v t.entries

theorem mem_entries_iff {t : Table κ ν} {e : κ × ν} : e ∈ t.entries ↔ t.get? e.1 = some e.2 :=
  get?_eq_some_iff.symm

/-- What an insertion does to a sum, when the entries are measured anew and no other one
is measured differently. -/
theorem weigh_insert_of_agree [DecidableEq κ] {f g : κ → ν → Nat} (t : Table κ ν) (k : κ) (v : ν)
    (h : ∀ l w, l ≠ k → g l w = f l w) :
    (t.insert k v).weigh g + ((t.get? k).map (f k)).getD 0 = t.weigh f + g k v := by
  have hinsert := Entries.weigh_insert g k v t.entries
  have hnew := Entries.weigh_erase g k t.entries
  have hold := Entries.weigh_erase f k t.entries
  have hothers : Entries.weigh g (Entries.erase k t.entries) =
      Entries.weigh f (Entries.erase k t.entries) := by
    unfold Entries.weigh
    congr 1
    apply List.map_congr_left
    intro e he
    have hget : (t.erase k).get? e.1 = some e.2 := get?_eq_some_iff.2 he
    rw [get?_erase] at hget
    split at hget
    · cases hget
    · rename_i hne
      exact h e.1 e.2 hne
  change Entries.weigh g (Entries.insert k v t.entries) +
    ((Entries.lookup k t.entries).map (f k)).getD 0 = Entries.weigh f t.entries + g k v
  omega

theorem ext_get? {s t : Table κ ν} (h : ∀ k, s.get? k = t.get? k) : s = t := by
  have hmem : ∀ e, e ∈ s.entries ↔ e ∈ t.entries := by
    intro e
    rw [mem_entries_iff, mem_entries_iff, h]
  have hnodup : ∀ u : Table κ ν, u.entries.Nodup := by
    intro u
    refine u.sorted.imp fun {a b} hab heq => ?_
    subst heq
    simp [KeyLt] at hab
  have hperm := (List.perm_ext_iff_of_nodup (hnodup s) (hnodup t)).2 hmem
  have heq : s.entries = t.entries := by
    refine hperm.eq_of_pairwise (fun a b _ _ hab hba => ?_) s.sorted t.sorted
    have := Std.TransCmp.lt_trans hab hba
    simp at this
  cases s
  cases t
  cases heq
  rfl

theorem insert_insert [DecidableEq κ] (t : Table κ ν) (k : κ) (v w : ν) :
    (t.insert k v).insert k w = t.insert k w := by
  apply ext_get?
  intro l
  rw [get?_insert, get?_insert, get?_insert]
  split <;> rfl

theorem get?_filter (p : κ × ν → Bool) (t : Table κ ν) (k : κ) :
    (t.filter p).get? k = (t.get? k).filter fun v => p (k, v) := by
  apply Option.ext
  intro v
  rw [get?_eq_some_iff, Option.filter_eq_some_iff, get?_eq_some_iff]
  exact List.mem_filter

theorem get?_foldl_erase [DecidableEq κ] (keys : List κ) (t : Table κ ν) (l : κ) :
    (keys.foldl erase t).get? l = if l ∈ keys then none else t.get? l := by
  induction keys generalizing t with
  | nil => simp
  | cons k ks ih =>
    rw [List.foldl_cons, ih, get?_erase]
    by_cases hl : l ∈ ks
    · simp [hl]
    · by_cases hk : l = k <;> simp [hl, hk]

theorem foldl_erase_keys [DecidableEq κ] (p : κ × ν → Bool) (t : Table κ ν) :
    ((t.entries.filter p).map Prod.fst).foldl erase t = t.filter fun e => !p e := by
  apply ext_get?
  intro k
  rw [get?_foldl_erase, get?_filter]
  cases hk : t.get? k with
  | none => simp
  | some v =>
    have hmem := get?_eq_some_iff.1 hk
    rw [Option.filter_some]
    by_cases hp : p (k, v)
    · have : k ∈ (t.entries.filter p).map Prod.fst :=
        List.mem_map.2 ⟨(k, v), List.mem_filter.2 ⟨hmem, hp⟩, rfl⟩
      simp [this, hp]
    · have : k ∉ (t.entries.filter p).map Prod.fst := by
        rintro hin
        obtain ⟨e, he, rfl⟩ := List.mem_map.1 hin
        obtain ⟨he, hpe⟩ := List.mem_filter.1 he
        rw [mem_entries_iff, hk] at he
        cases he
        exact hp hpe
      simp [this, hp]

end Table

end StakeLock
