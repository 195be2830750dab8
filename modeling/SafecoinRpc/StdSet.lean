import Mathlib.Data.List.Basic

/-!
# `std::set` with a comparator

A `std::set<T, Compare>` keeps its elements sorted by `Compare` and takes two elements to be
the same when neither is less than the other. As a sorted list, `insert` puts an element in
its place unless an equivalent one is there and `erase` removes the equivalent one. When the
comparator is a strict total order (`StrictTotal`) equivalence is equality: the members are
exactly the elements inserted and not erased since (`mem_insert`, `mem_erase`, and for the
loops `foldl_insert`, `foldl_erase`), and the list stays sorted.
-/

namespace SafecoinRpc.StdSet

variable {α β : Type} (lt : α → α → Bool)

/-- `std::set::insert`: nothing happens when an equivalent element is present. -/
def insert (x : α) : List α → List α
  | [] => [x]
  | y :: ys => if lt x y then x :: y :: ys else if lt y x then y :: insert x ys else y :: ys

/-- `std::set::erase(key)`: the element equivalent to `key`, if any, is removed. -/
def erase (x : α) : List α → List α
  | [] => []
  | y :: ys => if lt y x then y :: erase x ys else if lt x y then y :: ys else ys

/-- `if (x) set.erase(x);`: erase a key when there is one. -/
def eraseSome (o : Option α) (l : List α) : List α :=
  match o with
  | some x => erase lt x l
  | none => l

@[simp] theorem eraseSome_none (l : List α) : eraseSome lt none l = l := rfl

@[simp] theorem eraseSome_some (x : α) (l : List α) : eraseSome lt (some x) l = erase lt x l := rfl

/-- The comparator is a strict total order. -/
structure StrictTotal : Prop where
  irrefl : ∀ a, lt a a = false
  trans : ∀ {a b c}, lt a b = true → lt b c = true → lt a c = true
  total : ∀ {a b}, a ≠ b → lt a b = true ∨ lt b a = true

/-- Strictly sorted by the comparator. -/
def Sorted (l : List α) : Prop := l.Pairwise fun a b => lt a b = true

variable {lt}

theorem StrictTotal.asymm (h : StrictTotal lt) {a b : α} (hab : lt a b = true) :
    lt b a = false := by
  cases hba : lt b a
  · rfl
  · simpa [h.irrefl] using h.trans hab hba

theorem StrictTotal.eq_of_not_lt (h : StrictTotal lt) {a b : α} (hab : lt a b = false)
    (hba : lt b a = false) : a = b := by
  by_contra hne
  rcases h.total hne with h' | h' <;> simp_all

/-- For distinct elements exactly one is less than the other. -/
theorem StrictTotal.lt_iff_not_lt (h : StrictTotal lt) {a b : α} (hne : a ≠ b) :
    lt a b = true ↔ lt b a = false := by
  constructor
  · exact h.asymm
  · intro hba
    rcases h.total hne with h' | h' <;> simp_all

theorem erase_sublist (x : α) (l : List α) : (erase lt x l).Sublist l := by
  induction l with
  | nil => exact List.Sublist.slnil
  | cons y ys ih =>
    simp only [erase]
    split_ifs
    · exact ih.cons₂ y
    · exact List.Sublist.refl _
    · exact List.sublist_cons_self y ys

theorem sorted_erase (x : α) {l : List α} (hl : Sorted lt l) : Sorted lt (erase lt x l) :=
  hl.sublist (erase_sublist x l)

variable (h : StrictTotal lt)
include h

theorem mem_insert {x y : α} {l : List α} : y ∈ insert lt x l ↔ y = x ∨ y ∈ l := by
  induction l with
  | nil => simp [insert]
  | cons z zs ih =>
    simp only [insert]
    split_ifs with h1 h2
    · simp
    · simp only [List.mem_cons, ih]; exact or_left_comm
    · obtain rfl := h.eq_of_not_lt (Bool.not_eq_true _ ▸ h1) (Bool.not_eq_true _ ▸ h2)
      simp

theorem sorted_insert (x : α) {l : List α} (hl : Sorted lt l) : Sorted lt (insert lt x l) := by
  induction l with
  | nil => simp [insert, Sorted]
  | cons z zs ih =>
    rw [Sorted, List.pairwise_cons] at hl
    simp only [insert]
    split_ifs with h1 h2
    · refine List.Pairwise.cons (fun w hw => ?_) (List.Pairwise.cons hl.1 hl.2)
      rcases List.mem_cons.1 hw with rfl | hw
      · exact h1
      · exact h.trans h1 (hl.1 w hw)
    · refine List.Pairwise.cons (fun w hw => ?_) (ih hl.2)
      rcases (mem_insert h).1 hw with rfl | hw
      · exact h2
      · exact hl.1 w hw
    · exact List.Pairwise.cons hl.1 hl.2

theorem mem_erase {x y : α} {l : List α} (hl : Sorted lt l) :
    y ∈ erase lt x l ↔ y ∈ l ∧ y ≠ x := by
  induction l with
  | nil => simp [erase]
  | cons z zs ih =>
    rw [Sorted, List.pairwise_cons] at hl
    simp only [erase]
    split_ifs with h1 h2
    · have hzx : z ≠ x := by rintro rfl; simp [h.irrefl] at h1
      rcases eq_or_ne y z with rfl | hyz
      · simp [hzx]
      · simp [hyz, ih hl.2]
    · have hx : x ∉ z :: zs := by
        intro hx
        rcases List.mem_cons.1 hx with rfl | hx
        · simp [h.irrefl] at h2
        · have := h.trans h2 (hl.1 x hx)
          simp [h.irrefl] at this
      exact ⟨fun hy => ⟨hy, fun hyx => hx (hyx ▸ hy)⟩, fun hy => hy.1⟩
    · obtain rfl := h.eq_of_not_lt (Bool.not_eq_true _ ▸ h2) (Bool.not_eq_true _ ▸ h1)
      have hx : x ∉ zs := fun hx => by simpa [h.irrefl] using hl.1 _ hx
      rcases eq_or_ne y x with rfl | hyx
      · simp [hx]
      · simp [hyx]

/-- Inserting every element of `items`. -/
theorem foldl_insert (items acc : List α) (hacc : Sorted lt acc) :
    Sorted lt (items.foldl (fun acc p => insert lt p acc) acc) ∧
      ∀ y, y ∈ items.foldl (fun acc p => insert lt p acc) acc ↔ y ∈ acc ∨ y ∈ items := by
  induction items generalizing acc with
  | nil => simp [hacc]
  | cons p ps ih =>
    obtain ⟨hs, hm⟩ := ih _ (sorted_insert h p hacc)
    refine ⟨hs, fun y => ?_⟩
    simp only [List.foldl_cons] at hs hm ⊢
    rw [hm, mem_insert h, List.mem_cons, or_assoc]
    exact or_left_comm

/-- Erasing, for every element of `items` that names one, the element it names. -/
theorem foldl_erase (f : β → Option α) (items : List β) {acc : List α} (hacc : Sorted lt acc) :
    let out := items.foldl (fun acc m => eraseSome lt (f m) acc) acc
    Sorted lt out ∧ ∀ y, y ∈ out ↔ y ∈ acc ∧ ∀ m ∈ items, f m ≠ some y := by
  induction items generalizing acc with
  | nil => simp [hacc]
  | cons m ms ih =>
    simp only [List.foldl_cons]
    cases hf : f m with
    | none =>
      obtain ⟨hs, hm⟩ := ih hacc
      refine ⟨hs, fun y => ?_⟩
      simp only [eraseSome_none, eraseSome_some, hm, List.mem_cons, forall_eq_or_imp, hf]
      simp
    | some q =>
      obtain ⟨hs, hm⟩ := ih (sorted_erase q hacc)
      refine ⟨hs, fun y => ?_⟩
      simp only [eraseSome_none, eraseSome_some, hm, mem_erase h hacc, List.mem_cons, forall_eq_or_imp, hf, ne_eq,
        Option.some.injEq]
      constructor
      · rintro ⟨⟨hy, hyq⟩, hms⟩; exact ⟨hy, fun e => hyq e.symm, hms⟩
      · rintro ⟨hy, hyq, hms⟩; exact ⟨⟨hy, fun e => hyq e.symm⟩, hms⟩

end SafecoinRpc.StdSet
