/-!
# Slots

A row of slots, each of them empty or holding one value.  Page tables and the
mapping cache are both such rows.  They differ in what they do when no slot is free:
a page table grows, the cache refuses.

**Values keep their slots.**  Nothing here moves a value, so the values in slot order
(`Slots.values`) change only where something is placed or cleared.
-/

namespace DemandPaging

/-- **Rows of slots.** -/
structure Slots (α : Type) where
  cells : List (Option α)

namespace Slots

variable {α : Type}

/-- `n` empty slots. -/
def empty (n : Nat) : Slots α := ⟨List.replicate n none⟩

/-- How many slots there are. -/
def size (s : Slots α) : Nat := s.cells.length

/-- The values, in slot order. -/
def values (s : Slots α) : List α := s.cells.filterMap id

/-- The first value with the property, in slot order. -/
def find? (s : Slots α) (p : α → Bool) : Option α :=
  s.cells.findSome? fun c => c.filter p

/-- The first empty slot. -/
def firstFree? (s : Slots α) : Option Nat := s.cells.findIdx? Option.isNone

/-- The first slot that holds a value with the property. -/
def index? (s : Slots α) (p : α → Bool) : Option Nat :=
  s.cells.findIdx? fun c => c.any p

/-- Puts a value into slot `i`. -/
def place (s : Slots α) (i : Nat) (a : α) : Slots α := ⟨s.cells.set i (some a)⟩

/-- Appends `n` empty slots. -/
def extend (s : Slots α) (n : Nat) : Slots α := ⟨s.cells ++ List.replicate n none⟩

/-- The first `n` slots, or all of them and empty ones up to `n`. -/
def resize (s : Slots α) (n : Nat) : Slots α :=
  ⟨(s.cells ++ List.replicate (n - s.size) none).take n⟩

/-- Changes every value. -/
def map (s : Slots α) (f : α → α) : Slots α := ⟨s.cells.map (Option.map f)⟩

/-- Empties every slot that holds a value with the property. -/
def clear (s : Slots α) (p : α → Bool) : Slots α :=
  ⟨s.cells.map fun c => c.filter fun a => !p a⟩

@[simp] theorem size_empty (n : Nat) : (empty n : Slots α).size = n := by simp [size, empty]

@[simp] theorem size_place (s : Slots α) (i : Nat) (a : α) : (s.place i a).size = s.size := by
  simp [size, place]

@[simp] theorem size_extend (s : Slots α) (n : Nat) : (s.extend n).size = s.size + n := by
  simp [size, extend]

@[simp] theorem size_map (s : Slots α) (f : α → α) : (s.map f).size = s.size := by
  simp [size, map]

@[simp] theorem size_clear (s : Slots α) (p : α → Bool) : (s.clear p).size = s.size := by
  simp [size, clear]

/-- Looking through the slots is looking through their values. -/
theorem find?_eq_values_find? (s : Slots α) (p : α → Bool) : s.find? p = s.values.find? p := by
  cases s with
  | mk cells =>
    simp only [find?, values]
    induction cells with
    | nil => rfl
    | cons c rest ih =>
      cases c with
      | none => exact ih
      | some a =>
        have values : List.filterMap id (some a :: rest) = a :: List.filterMap id rest := rfl
        rw [List.findSome?_cons, values, List.find?_cons, Option.filter_some, ih]
        by_cases h : p a <;> simp [h]

@[simp] theorem values_empty (n : Nat) : (empty n : Slots α).values = [] := by
  induction n with
  | zero => rfl
  | succ n _ => simp [values, empty]

@[simp] theorem values_extend (s : Slots α) (n : Nat) : (s.extend n).values = s.values := by
  have h := values_empty (α := α) n
  simp only [values, empty] at h
  simp only [values, extend]
  rw [List.filterMap_append, h, List.append_nil]

@[simp] theorem values_map (s : Slots α) (f : α → α) : (s.map f).values = s.values.map f := by
  cases s with
  | mk cells =>
    simp only [values, map]
    induction cells with
    | nil => rfl
    | cons c rest ih => cases c <;> simpa using ih

@[simp] theorem values_clear (s : Slots α) (p : α → Bool) :
    (s.clear p).values = s.values.filter fun a => !p a := by
  cases s with
  | mk cells =>
    simp only [values, clear]
    induction cells with
    | nil => rfl
    | cons c rest ih =>
      cases c with
      | none => simpa using ih
      | some a => by_cases h : p a <;> simpa [h, Option.filter] using ih

/-- Resizing to no fewer slots than there are appends empty ones. -/
theorem resize_eq_extend {s : Slots α} {n : Nat} (h : s.size ≤ n) :
    s.resize n = s.extend (n - s.size) := by
  have hlength : s.cells.length = s.size := rfl
  unfold resize extend
  rw [List.take_of_length_le]
  rw [List.length_append, List.length_replicate, hlength]
  omega

/-- The first empty slot is empty. -/
theorem getElem?_of_firstFree? {s : Slots α} {i : Nat} (h : s.firstFree? = some i) :
    s.cells[i]? = some none := by
  unfold firstFree? at h
  obtain ⟨hi, hnone, -⟩ := List.findIdx?_eq_some_iff_getElem.1 h
  rw [List.getElem?_eq_getElem hi]
  simpa using hnone

/-- Filling an empty slot inserts one value among the others and moves none of them. -/
theorem values_place {s : Slots α} {i : Nat} (h : s.cells[i]? = some none) (a : α) :
    ∃ before after, s.values = before ++ after ∧ (s.place i a).values = before ++ a :: after := by
  cases s with
  | mk cells =>
    simp only [values, place] at h ⊢
    induction cells generalizing i with
    | nil => simp at h
    | cons c rest ih =>
      cases i with
      | zero =>
        cases c with
        | none => exact ⟨[], rest.filterMap id, rfl, rfl⟩
        | some b => simp at h
      | succ i =>
        obtain ⟨before, after, hb, ha⟩ := ih h
        cases c with
        | none => exact ⟨before, after, hb, ha⟩
        | some b => exact ⟨b :: before, after, congrArg (b :: ·) hb, congrArg (b :: ·) ha⟩

/-- A row without an empty slot has a value in every slot. -/
theorem length_values_of_full {s : Slots α} (h : s.firstFree? = none) :
    s.values.length = s.size := by
  cases s with
  | mk cells =>
    simp only [firstFree?, List.findIdx?_eq_none_iff, values, size] at h ⊢
    induction cells with
    | nil => rfl
    | cons c rest ih =>
      cases c with
      | none => simpa using h none List.mem_cons_self
      | some b =>
        exact congrArg (· + 1) (ih fun c hc => h c (List.mem_cons_of_mem _ hc))

/-- A row with an empty slot has fewer values than slots. -/
theorem length_values_lt {s : Slots α} {i : Nat} (h : s.firstFree? = some i) :
    s.values.length < s.size :=
  List.length_filterMap_lt_length_iff_exists.mpr
    ⟨none, List.mem_of_getElem? (getElem?_of_firstFree? h), rfl⟩

end Slots

end DemandPaging
