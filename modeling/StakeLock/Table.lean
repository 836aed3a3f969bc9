/-!
# Ordered tables

A finite map is a list of entries with strictly increasing keys, so equal maps
are equal tables and iteration follows the order of the keys.
-/

namespace StakeLock

section

variable {κ ν : Type} [Ord κ]

/-- Strict order of two entries by their keys. -/
def KeyLt (a b : κ × ν) : Prop := compare a.1 b.1 = .lt

namespace Entries

def lookup (k : κ) : List (κ × ν) → Option ν
  | [] => none
  | e :: es =>
    match compare k e.1 with
    | .lt => none
    | .eq => some e.2
    | .gt => lookup k es

def insert (k : κ) (v : ν) : List (κ × ν) → List (κ × ν)
  | [] => [(k, v)]
  | e :: es =>
    match compare k e.1 with
    | .lt => (k, v) :: e :: es
    | .eq => (k, v) :: es
    | .gt => e :: insert k v es

def erase (k : κ) : List (κ × ν) → List (κ × ν)
  | [] => []
  | e :: es =>
    match compare k e.1 with
    | .lt => e :: es
    | .eq => es
    | .gt => e :: erase k es

theorem mem_insert {k : κ} {v : ν} {es : List (κ × ν)} {e : κ × ν} (h : e ∈ insert k v es) :
    e = (k, v) ∨ e ∈ es := by
  induction es with
  | nil => simpa [insert] using h
  | cons d ds ih =>
    simp only [insert] at h
    split at h <;> simp only [List.mem_cons] at h ⊢
    · exact h
    · exact h.imp id .inr
    · rcases h with h | h
      · exact .inr (.inl h)
      · exact (ih h).imp id .inr

theorem mem_of_mem_erase {k : κ} {es : List (κ × ν)} {e : κ × ν} (h : e ∈ erase k es) :
    e ∈ es := by
  induction es with
  | nil => simp [erase] at h
  | cons d ds ih =>
    simp only [erase] at h
    split at h <;> simp only [List.mem_cons] at h ⊢
    · exact h
    · exact .inr h
    · exact h.imp id ih

theorem pairwise_erase {k : κ} {es : List (κ × ν)} (h : es.Pairwise KeyLt) :
    (erase k es).Pairwise KeyLt := by
  induction es with
  | nil => simp [erase]
  | cons d ds ih =>
    have h' := List.pairwise_cons.1 h
    simp only [erase]
    split
    · exact h
    · exact h'.2
    · exact List.pairwise_cons.2 ⟨fun e he => h'.1 e (mem_of_mem_erase he), ih h'.2⟩

theorem lookup_of_lt {l : κ} {es : List (κ × ν)} (h : ∀ e ∈ es, compare l e.1 = .lt) :
    lookup l es = none := by
  cases es with
  | nil => rfl
  | cons d ds => simp [lookup, h d (List.mem_cons_self ..)]

variable [Std.TransOrd κ] [Std.LawfulEqOrd κ]

theorem pairwise_insert {k : κ} {v : ν} {es : List (κ × ν)} (h : es.Pairwise KeyLt) :
    (insert k v es).Pairwise KeyLt := by
  induction es with
  | nil => simp [insert]
  | cons d ds ih =>
    rw [List.pairwise_cons] at h
    simp only [insert]
    split
    · rename_i hk
      refine List.pairwise_cons.2 ⟨fun e he => ?_, List.pairwise_cons.2 h⟩
      rcases List.mem_cons.1 he with rfl | he
      · exact hk
      · exact Std.TransCmp.lt_trans hk (h.1 e he)
    · rename_i hk
      have := Std.LawfulEqOrd.eq_of_compare hk
      subst this
      exact List.pairwise_cons.2 ⟨fun e he => h.1 e he, h.2⟩
    · rename_i hk
      refine List.pairwise_cons.2 ⟨fun e he => ?_, ih h.2⟩
      rcases mem_insert he with rfl | he
      · exact Std.OrientedCmp.lt_of_gt hk
      · exact h.1 e he

theorem lookup_insert (k l : κ) (v : ν) (es : List (κ × ν)) :
    lookup l (insert k v es) = if compare l k = .eq then some v else lookup l es := by
  induction es with
  | nil =>
    simp only [insert, lookup]
    cases h : compare l k <;> simp
  | cons d ds ih =>
    simp only [insert]
    split
    · rename_i hk
      cases hl : compare l k
      · simp [lookup, hl, Std.TransCmp.lt_trans hl hk]
      · simp [lookup, hl]
      · simp [lookup, hl]
    · rename_i hk
      have := Std.LawfulEqOrd.eq_of_compare hk
      subst this
      cases hl : compare l d.1 <;> simp [lookup, hl]
    · rename_i hk
      simp only [lookup, ih]
      cases hl : compare l d.1
      · have : compare l k = .lt := Std.TransCmp.lt_trans hl (Std.OrientedCmp.lt_of_gt hk)
        simp [this]
      · have := Std.LawfulEqOrd.eq_of_compare hl
        subst this
        simp [Std.OrientedCmp.lt_of_gt hk]
      · rfl

theorem lookup_erase {k : κ} (l : κ) {es : List (κ × ν)} (h : es.Pairwise KeyLt) :
    lookup l (erase k es) = if compare l k = .eq then none else lookup l es := by
  induction es with
  | nil => simp [erase, lookup]
  | cons d ds ih =>
    have h' := List.pairwise_cons.1 h
    simp only [erase]
    split
    · rename_i hk
      split
      · rename_i hl
        have := Std.LawfulEqOrd.eq_of_compare hl
        subst this
        simp [lookup, hk]
      · rfl
    · rename_i hk
      have := Std.LawfulEqOrd.eq_of_compare hk
      subst this
      cases hl : compare l d.1
      · simp [lookup, hl, lookup_of_lt fun e he => Std.TransCmp.lt_trans hl (h'.1 e he)]
      · have := Std.LawfulEqOrd.eq_of_compare hl
        subst this
        simp [lookup_of_lt fun e he => h'.1 e he]
      · simp [lookup, hl]
    · rename_i hk
      simp only [lookup, ih h'.2]
      cases hl : compare l d.1
      · have : compare l k = .lt := Std.TransCmp.lt_trans hl (Std.OrientedCmp.lt_of_gt hk)
        simp [this]
      · have := Std.LawfulEqOrd.eq_of_compare hl
        subst this
        simp [Std.OrientedCmp.lt_of_gt hk]
      · rfl

theorem lookup_eq_some_iff {k : κ} {v : ν} {es : List (κ × ν)} (h : es.Pairwise KeyLt) :
    lookup k es = some v ↔ (k, v) ∈ es := by
  induction es with
  | nil => simp [lookup]
  | cons d ds ih =>
    have h' := List.pairwise_cons.1 h
    simp only [lookup, List.mem_cons]
    cases hk : compare k d.1
    · simp only [reduceCtorEq, false_iff, not_or]
      refine ⟨?_, fun hm => ?_⟩
      · rintro rfl
        simp at hk
      · have := Std.TransCmp.lt_trans hk (h'.1 _ hm)
        simp at this
    · have := Std.LawfulEqOrd.eq_of_compare hk
      subst this
      constructor
      · intro hv
        exact .inl (by cases hv; rfl)
      · rintro (hv | hv)
        · rw [← hv]
        · have := h'.1 _ hv
          simp [KeyLt] at this
    · simp only [ih h'.2]
      constructor
      · exact .inr
      · rintro (rfl | hv)
        · simp at hk
        · exact hv

end Entries

end

structure Table (κ ν : Type) [Ord κ] where
  entries : List (κ × ν)
  sorted : entries.Pairwise KeyLt

namespace Table

variable {κ ν : Type} [Ord κ]

instance [DecidableEq κ] [DecidableEq ν] : DecidableEq (Table κ ν) := fun s t =>
  decidable_of_iff (s.entries = t.entries)
    ⟨fun h => by cases s; cases t; cases h; rfl, fun h => h ▸ rfl⟩

def empty : Table κ ν := ⟨[], .nil⟩

instance : Inhabited (Table κ ν) := ⟨empty⟩

def get? (t : Table κ ν) (k : κ) : Option ν := Entries.lookup k t.entries

@[simp] theorem get?_empty (k : κ) : (empty : Table κ ν).get? k = none := rfl

def contains (t : Table κ ν) (k : κ) : Bool := (t.get? k).isSome

variable [Std.TransOrd κ] [Std.LawfulEqOrd κ]

def insert (t : Table κ ν) (k : κ) (v : ν) : Table κ ν :=
  ⟨Entries.insert k v t.entries, Entries.pairwise_insert t.sorted⟩

def erase (t : Table κ ν) (k : κ) : Table κ ν :=
  ⟨Entries.erase k t.entries, Entries.pairwise_erase t.sorted⟩

theorem get?_eq_some_iff {t : Table κ ν} {k : κ} {v : ν} :
    t.get? k = some v ↔ (k, v) ∈ t.entries :=
  Entries.lookup_eq_some_iff t.sorted

theorem get?_insert [DecidableEq κ] (t : Table κ ν) (k l : κ) (v : ν) :
    (t.insert k v).get? l = if l = k then some v else t.get? l := by
  simp only [get?, insert, Entries.lookup_insert, Std.LawfulEqCmp.compare_eq_iff_eq]

theorem get?_erase [DecidableEq κ] (t : Table κ ν) (k l : κ) :
    (t.erase k).get? l = if l = k then none else t.get? l := by
  simp only [get?, erase, Entries.lookup_erase l t.sorted, Std.LawfulEqCmp.compare_eq_iff_eq]

end Table

end StakeLock
