import Mathlib.Algebra.BigOperators.Intervals

set_option autoImplicit false

namespace Loop

variable {σ α ι : Type}

-- for (i = 0; i < n; ++i) body(i)
def forLoop (n : Nat) (body : Nat → σ → σ) (s : σ) : σ :=
  match n with
  | 0 => s
  | n + 1 => body n (forLoop n body s)

@[simp] theorem forLoop_zero (body : Nat → σ → σ) (s : σ) : forLoop 0 body s = s := rfl

@[simp] theorem forLoop_succ (n : Nat) (body : Nat → σ → σ) (s : σ) :
    forLoop (n + 1) body s = body n (forLoop n body s) := rfl

theorem forLoop_invariant {body : Nat → σ → σ} {P : Nat → σ → Prop} {n : Nat} {s : σ}
    (start : P 0 s) (step : ∀ i s, i < n → P i s → P (i + 1) (body i s)) :
    P n (forLoop n body s) := by
  induction n with
  | zero => exact start
  | succ n ih =>
    apply step n _ (Nat.lt_succ_self n)
    exact ih fun i s below => step i s (Nat.lt_succ_of_lt below)

theorem forLoop_keeps {body : Nat → σ → σ} {P : σ → Prop} {n : Nat} {s : σ}
    (start : P s) (step : ∀ i s, i < n → P s → P (body i s)) :
    P (forLoop n body s) :=
  forLoop_invariant (P := fun _ => P) start step

theorem forLoop_congr {body other : Nat → σ → σ} {n : Nat}
    (same : ∀ i s, i < n → body i s = other i s) (s : σ) :
    forLoop n body s = forLoop n other s := by
  induction n with
  | zero => rfl
  | succ n ih =>
    have earlier := ih fun i s below => same i s (Nat.lt_succ_of_lt below)
    simp [earlier, same n _ (Nat.lt_succ_self n)]

theorem forLoop_each {body : Nat → σ → σ} {P : σ → Prop} {Q : Nat → σ → Prop} {n : Nat} {s : σ}
    (start : P s) (keepsInv : ∀ i s, i < n → P s → P (body i s))
    (makes : ∀ i s, i < n → P s → Q i (body i s))
    (keeps : ∀ i j s, i < n → j < i → P s → Q j s → Q j (body i s)) :
    ∀ i < n, Q i (forLoop n body s) := by
  induction n with
  | zero => simp
  | succ n ih =>
    have inv : P (forLoop n body s) :=
      forLoop_keeps start fun i s below => keepsInv i s (Nat.lt_succ_of_lt below)
    intro i below
    by_cases last : i = n
    · subst last
      exact makes i _ below inv
    · have earlier : i < n := by omega
      apply keeps n i _ (Nat.lt_succ_self n) earlier inv
      exact ih (fun i s below => keepsInv i s (Nat.lt_succ_of_lt below))
        (fun i s below => makes i s (Nat.lt_succ_of_lt below))
        (fun i j s below => keeps i j s (Nat.lt_succ_of_lt below)) i earlier

theorem forLoop_project {body : Nat → σ → σ} (view : σ → α) {step : Nat → α → α} {n : Nat}
    (follows : ∀ i s, i < n → view (body i s) = step i (view s)) (s : σ) :
    view (forLoop n body s) = forLoop n step (view s) := by
  induction n with
  | zero => rfl
  | succ n ih =>
    have earlier := ih fun i s below => follows i s (Nat.lt_succ_of_lt below)
    simp [earlier, follows n _ (Nat.lt_succ_self n)]

theorem forLoop_once {body : Nat → σ → σ} (view : σ → α) (change : α → α) {k n : Nat} (hit : k < n)
    (misses : ∀ i s, i < n → i ≠ k → view (body i s) = view s)
    (hits : ∀ s, view (body k s) = change (view s)) (s : σ) :
    view (forLoop n body s) = change (view s) := by
  induction n with
  | zero => omega
  | succ n ih =>
    rw [forLoop_succ]
    by_cases last : k = n
    · subst last
      rw [hits]
      congr 1
      apply forLoop_keeps (P := fun state => view state = view s)
      · rfl
      · intro i state below same
        rw [misses i state (Nat.lt_succ_of_lt below) (Nat.ne_of_lt below), same]
    · rw [misses n _ (Nat.lt_succ_self n) (Ne.symm last)]
      exact ih (by omega) fun i s below other => misses i s (Nat.lt_succ_of_lt below) other

def grid (n m : Nat) (body : Nat → Nat → σ → σ) (s : σ) : σ :=
  forLoop n (fun i => forLoop m (body i)) s

theorem grid_keeps {body : Nat → Nat → σ → σ} {P : σ → Prop} {n m : Nat} {s : σ} (start : P s)
    (step : ∀ i j s, i < n → j < m → P s → P (body i j s)) : P (grid n m body s) := by
  apply forLoop_keeps start
  intro i s row inv
  apply forLoop_keeps inv
  intro j s column inv
  exact step i j s row column inv

theorem grid_congr {body other : Nat → Nat → σ → σ} {n m : Nat}
    (same : ∀ i j s, i < n → j < m → body i j s = other i j s) (s : σ) :
    grid n m body s = grid n m other s := by
  apply forLoop_congr
  intro i s below
  apply forLoop_congr
  intro j s within
  exact same i j s below within

theorem grid_each {body : Nat → Nat → σ → σ} {P : σ → Prop} {Q : Nat → Nat → σ → Prop} {n m : Nat}
    {s : σ} (start : P s) (keepsP : ∀ i j s, i < n → j < m → P s → P (body i j s))
    (makes : ∀ i j s, i < n → j < m → P s → Q i j (body i j s))
    (keeps : ∀ i j row column s, i < n → j < m → row < n → column < m →
      ¬ (row = i ∧ column = j) → P s → Q row column s → Q row column (body i j s)) :
    ∀ row < n, ∀ column < m, Q row column (grid n m body s) := by
  apply forLoop_each (Q := fun row s => ∀ column < m, Q row column s) start
  · intro i s row inv
    exact forLoop_keeps inv fun j s column inv => keepsP i j s row column inv
  · intro i s row inv
    apply forLoop_each (Q := Q i) inv
    · intro j s column inv
      exact keepsP i j s row column inv
    · intro j s column inv
      exact makes i j s row column inv
    · intro j column s below earlier inv made
      exact keeps i j i column s row below row (by omega) (by omega) inv made
  · intro i row s below earlier inv made column inside
    have kept : P (forLoop m (body i) s) ∧ Q row column (forLoop m (body i) s) := by
      apply forLoop_keeps (P := fun s => P s ∧ Q row column s) ⟨inv, made column inside⟩
      intro j s within state
      constructor
      · exact keepsP i j s below within state.1
      · exact keeps i j row column s below within (by omega) inside (by omega) state.1 state.2
    exact kept.2

theorem grid_once {body : Nat → Nat → σ → σ} (view : σ → α) (change : α → α)
    {row column n m : Nat} (below : row < n) (inside : column < m)
    (misses : ∀ i j s, i < n → j < m → ¬ (i = row ∧ j = column) → view (body i j s) = view s)
    (hits : ∀ s, view (body row column s) = change (view s)) (s : σ) :
    view (grid n m body s) = change (view s) := by
  apply forLoop_once view change below
  · intro i s bound other
    apply forLoop_keeps (P := fun state => view state = view s)
    · rfl
    · intro j state within same
      rw [misses i j state bound within (by omega), same]
  · intro s
    apply forLoop_once view change inside
    · intro j s within other
      exact misses row j s below within (by omega)
    · exact hits

theorem rowMajor_div {n column : Nat} (row : Nat) (inside : column < n) :
    (row * n + column) / n = row := by
  rw [Nat.mul_comm, Nat.mul_add_div (by omega), Nat.div_eq_of_lt inside, Nat.add_zero]

theorem rowMajor_mod {n column : Nat} (row : Nat) (inside : column < n) :
    (row * n + column) % n = column := by
  rw [Nat.mul_comm, Nat.mul_add_mod, Nat.mod_eq_of_lt inside]

theorem rowMajor_lt {rows n row column : Nat} (below : row < rows) (inside : column < n) :
    row * n + column < rows * n :=
  calc row * n + column < row * n + n := Nat.add_lt_add_left inside _
    _ = (row + 1) * n := (Nat.succ_mul row n).symm
    _ ≤ rows * n := Nat.mul_le_mul_right n below

theorem rowMajor_injective {n row column row' column' : Nat} (inside : column < n)
    (inside' : column' < n) (same : row * n + column = row' * n + column') :
    row = row' ∧ column = column' := by
  constructor
  · rw [← rowMajor_div row inside, same, rowMajor_div row' inside']
  · rw [← rowMajor_mod row inside, same, rowMajor_mod row' inside']

theorem rowMajor_apart {n row column row' column' : Nat} (inside : column < n)
    (inside' : column' < n) (other : ¬ (row' = row ∧ column' = column)) :
    row * n + column ≠ row' * n + column' := by
  intro same
  have equal := rowMajor_injective inside inside' same
  exact other ⟨equal.1.symm, equal.2.symm⟩

theorem rowMajor_split {rows columns i : Nat} (below : i < rows * columns) :
    i / columns < rows ∧ i % columns < columns ∧ i / columns * columns + i % columns = i := by
  have positive : 0 < columns := by
    rcases Nat.eq_zero_or_pos columns with rfl | positive
    · simp at below
    · exact positive
  refine ⟨?_, Nat.mod_lt i positive, Nat.div_add_mod' i columns⟩
  exact Nat.div_lt_of_lt_mul (by rwa [Nat.mul_comm])

variable [DecidableEq ι]

def store (n : Nat) (index : Nat → ι) (value : Nat → α) (array : ι → α) : ι → α :=
  forLoop n (fun i array => Function.update array (index i) (value i)) array

theorem store_written (n : Nat) (index : Nat → ι) (value : Nat → α) (array : ι → α)
    (apart : ∀ i j, i < n → j < i → index j ≠ index i) :
    ∀ i < n, store n index value array (index i) = value i := by
  unfold store
  apply forLoop_each (P := fun _ => True) (Q := fun i (array : ι → α) => array (index i) = value i)
  · trivial
  · simp
  · simp
  · intro i j array below earlier _ written
    rwa [Function.update_of_ne (apart i j below earlier)]

theorem store_other {n : Nat} {index : Nat → ι} {value : Nat → α} (array : ι → α) (key : ι)
    (missed : ∀ i < n, index i ≠ key) : store n index value array key = array key := by
  unfold store
  apply forLoop_keeps (P := fun current : ι → α => current key = array key)
  · rfl
  · intro i current below same
    rw [Function.update_of_ne (missed i below).symm, same]

theorem store_congr {n : Nat} {index other : Nat → ι} {value changed : Nat → α} (array : ι → α)
    (places : ∀ i < n, index i = other i) (same : ∀ i < n, value i = changed i) :
    store n index value array = store n other changed array := by
  apply forLoop_congr
  intro i array below
  rw [places i below, same i below]

theorem store_again {n : Nat} {index : Nat → ι} {value later : Nat → α} (array : ι → α)
    (apart : ∀ i j, i < n → j < i → index j ≠ index i) :
    store n index later (store n index value array) = store n index later array := by
  funext key
  by_cases hit : ∃ i < n, index i = key
  · obtain ⟨i, below, rfl⟩ := hit
    rw [store_written n index later _ apart i below, store_written n index later _ apart i below]
  · have missed : ∀ i < n, index i ≠ key := fun i below same => hit ⟨i, below, same⟩
    rw [store_other _ key missed, store_other _ key missed, store_other _ key missed]

theorem forLoop_inPlace {n : Nat} {index : Nat → ι} (change : α → α) (array : ι → α)
    (apart : ∀ i j, i < n → j < i → index j ≠ index i) :
    forLoop n (fun i array => Function.update array (index i) (change (array (index i)))) array =
      store n index (fun i => change (array (index i))) array := by
  induction n with
  | zero => rfl
  | succ n ih =>
    have earlier := ih fun i j below => apart i j (by omega)
    have fresh : store n index (fun i => change (array (index i))) array (index n) =
        array (index n) :=
      store_other array (index n) fun i below => apart n i (by omega) below
    rw [forLoop_succ, earlier, fresh, store, store, forLoop_succ]

theorem forLoop_stored {n : Nat} {index : Nat → ι} {value : Nat → α} (change : α → α)
    (array : ι → α) (apart : ∀ i j, i < n → j < i → index j ≠ index i) :
    forLoop n (fun i array => Function.update array (index i) (change (array (index i))))
        (store n index value array) =
      store n index (fun i => change (value i)) array := by
  have values : ∀ i < n, change (store n index value array (index i)) = change (value i) := by
    intro i below
    rw [store_written n index value array apart i below]
  rw [forLoop_inPlace change _ apart, store_congr _ (fun _ _ => rfl) values, store_again array apart]

omit [DecidableEq ι] in
theorem forLoop_add [AddCommMonoid α] (n : Nat) (f : Nat → α) (a : α) :
    forLoop n (fun i total => total + f i) a = a + ∑ i ∈ Finset.range n, f i := by
  induction n with
  | zero => simp
  | succ n ih => rw [forLoop_succ, ih, Finset.sum_range_succ, add_assoc]

omit [DecidableEq ι] in
theorem sum_blocks [AddCommMonoid α] (f : Nat → α) (blocks size : Nat) :
    ∑ block ∈ Finset.range blocks, ∑ i ∈ Finset.range size, f (block * size + i) =
      ∑ i ∈ Finset.range (blocks * size), f i := by
  induction blocks with
  | zero => simp
  | succ blocks ih => rw [Finset.sum_range_succ, ih, Nat.succ_mul, Finset.sum_range_add]

end Loop
