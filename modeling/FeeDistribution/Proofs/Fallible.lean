import FeeDistribution.Decimal
import Mathlib.Algebra.Ring.Nat
import Mathlib.Data.List.Forall2

/-!
# Operations that may fail

How a result of an operation that may fail tells what its parts did: a sequence succeeds if all its
parts do, and a list of operations succeeds if each of them does.  The definitions of the ledger are
taken apart with these lemmas once, where it is said what each operation does; nothing later looks
inside them.
-/

namespace FeeDistribution.Fallible

variable {ε α β : Type}

theorem bind_eq_ok {first : Except ε α} {next : α → Except ε β} {answer : β} :
    first >>= next = .ok answer ↔ ∃ part, first = .ok part ∧ next part = .ok answer := by
  cases first <;> simp [bind, Except.bind]

theorem bind_eq_error {first : Except ε α} {next : α → Except ε β} {fault : ε} :
    first >>= next = .error fault ↔
      first = .error fault ∨ ∃ part, first = .ok part ∧ next part = .error fault := by
  cases first <;> simp [bind, Except.bind]

theorem pure_eq_ok {answer other : α} :
    (pure answer : Except ε α) = .ok other ↔ answer = other :=
  Except.ok.injEq answer other ▸ Iff.rfl

theorem map_eq_ok {wrap : α → β} {result : Except ε α} {answer : β} :
    result.map wrap = .ok answer ↔ ∃ part, result = .ok part ∧ wrap part = answer := by
  cases result <;> simp [Except.map]

theorem map_eq_error {wrap : α → β} {result : Except ε α} {fault : ε} :
    result.map wrap = .error fault ↔ result = .error fault := by
  cases result <;> simp [Except.map]

/-- A guard lets the rest through if its condition does not hold. -/
theorem guard_eq_ok {condition : Prop} [Decidable condition] {fault : ε}
    {next : α → Except ε β} {rest : Except ε β} {answer : β} :
    (if condition then (throw fault : Except ε α) >>= next else rest) = .ok answer ↔
      ¬ condition ∧ rest = .ok answer := by
  split
  · simp [‹condition›, bind, Except.bind, throw, throwThe, MonadExceptOf.throw]
  · simp [‹¬ condition›]

/-- A guard at the end passes if its condition does not hold. -/
theorem guard_eq_ok_unit {condition : Prop} [Decidable condition] {fault : ε} :
    (if condition then throw fault else pure () : Except ε Unit) = .ok () ↔ ¬ condition := by
  split
  · simp [‹condition›, throw, throwThe, MonadExceptOf.throw]
  · simp [‹¬ condition›, pure, Except.pure]

/-- A list of checks passes if each of them does. -/
theorem forM_eq_ok {check : α → Except ε Unit} {items : List α} :
    items.forM check = .ok () ↔ ∀ item ∈ items, check item = .ok () := by
  induction items with
  | nil => simp [List.forM, pure, Except.pure]
  | cons item items ih =>
      have hcons : (item :: items).forM check = check item >>= fun _ => items.forM check := rfl
      simp only [hcons, bind_eq_ok, ih, List.forall_mem_cons]
      exact ⟨fun ⟨_, hitem, hitems⟩ => ⟨hitem, hitems⟩, fun ⟨hitem, hitems⟩ => ⟨_, hitem, hitems⟩⟩

/-- An operation carried out on every element answers with one result for each. -/
theorem forall₂_of_mapM {operation : α → Except ε β} {items : List α} {answers : List β}
    (hmap : items.mapM operation = .ok answers) :
    List.Forall₂ (fun item answer => operation item = .ok answer) items answers := by
  induction items generalizing answers with
  | nil =>
      rw [List.mapM_nil, pure_eq_ok] at hmap
      subst hmap
      exact .nil
  | cons item items ih =>
      simp only [List.mapM_cons, bind_eq_ok, pure_eq_ok] at hmap
      obtain ⟨answer, hanswer, rest, hrest, rfl⟩ := hmap
      exact .cons hanswer (ih hrest)

/-- Of an operation carried out on every element, each answer comes from an element and each element
has its answer. -/
theorem mem_of_mapM {operation : α → Except ε β} {items : List α} {answers : List β}
    (hmap : items.mapM operation = .ok answers) :
    (∀ answer ∈ answers, ∃ item ∈ items, operation item = .ok answer) ∧
      ∀ item ∈ items, ∃ answer ∈ answers, operation item = .ok answer := by
  have hanswers := forall₂_of_mapM hmap
  clear hmap
  induction hanswers with
  | nil => exact ⟨nofun, nofun⟩
  | cons hanswer _ ih =>
      obtain ⟨hfrom, hto⟩ := ih
      constructor
      · intro answer hmem
        rcases List.mem_cons.mp hmem with rfl | hmem
        · exact ⟨_, List.mem_cons_self, hanswer⟩
        · obtain ⟨item, hitem, hok⟩ := hfrom answer hmem
          exact ⟨item, List.mem_cons_of_mem _ hitem, hok⟩
      · intro item hmem
        rcases List.mem_cons.mp hmem with rfl | hmem
        · exact ⟨_, List.mem_cons_self, hanswer⟩
        · obtain ⟨answer, hanswers, hok⟩ := hto item hmem
          exact ⟨answer, List.mem_cons_of_mem _ hanswers, hok⟩

theorem mapM_congr {first second : α → Except ε β} {items : List α}
    (hsame : ∀ item ∈ items, first item = second item) :
    items.mapM first = items.mapM second := by
  induction items with
  | nil => rfl
  | cons item items ih =>
      obtain ⟨hitem, hitems⟩ := List.forall_mem_cons.mp hsame
      rw [List.mapM_cons, List.mapM_cons, hitem, ih hitems]

/-- Results that are changed one by one may as well be changed when all are there. -/
theorem mapM_map_result {γ : Type} {operation : α → Except ε β} {change : β → γ}
    (items : List α) :
    items.mapM (fun item => (operation item).map change) =
      (items.mapM operation).map (List.map change) := by
  induction items with
  | nil => rfl
  | cons item items ih =>
      rw [List.mapM_cons, List.mapM_cons, ih]
      cases operation item with
      | error fault => rfl
      | ok answer => cases items.mapM operation <;> rfl

/-- An operation that succeeds on every element can be carried out on all of them. -/
theorem exists_mapM {operation : α → Except ε β} {items : List α}
    (hoperation : ∀ item ∈ items, ∃ answer, operation item = .ok answer) :
    ∃ answers, items.mapM operation = .ok answers := by
  induction items with
  | nil => exact ⟨[], rfl⟩
  | cons item items ih =>
      obtain ⟨hitem, hitems⟩ := List.forall_mem_cons.mp hoperation
      obtain ⟨answer, hanswer⟩ := hitem
      obtain ⟨answers, hanswers⟩ := ih hitems
      exact ⟨answer :: answers, by rw [List.mapM_cons, hanswer, hanswers]; rfl⟩

/-! ## Faults that do not occur -/

section Never

variable {fault : ε}

theorem bind_ne_error {first : Except ε α} {next : α → Except ε β} (hfirst : first ≠ .error fault)
    (hnext : ∀ part, next part ≠ .error fault) : first >>= next ≠ .error fault := by
  intro hbind
  rcases bind_eq_error.mp hbind with hfailed | ⟨part, _, hfailed⟩
  · exact hfirst hfailed
  · exact hnext part hfailed

theorem pure_ne_error {answer : α} : (pure answer : Except ε α) ≠ .error fault :=
  nofun

theorem guard_ne_error {condition : Prop} [Decidable condition] {other : ε}
    {next : α → Except ε β} {rest : Except ε β} (hother : other ≠ fault)
    (hrest : rest ≠ .error fault) :
    (if condition then (throw other : Except ε α) >>= next else rest) ≠ .error fault := by
  split
  · exact fun hthrow => hother (Except.error.inj hthrow)
  · exact hrest

/-- A guard at the end. -/
theorem guard_ne_error_unit {condition : Prop} [Decidable condition] {other : ε}
    (hother : other ≠ fault) :
    (if condition then throw other else pure () : Except ε Unit) ≠ .error fault := by
  split
  · exact fun hthrow => hother (Except.error.inj hthrow)
  · exact pure_ne_error

theorem forM_ne_error {check : α → Except ε Unit} {items : List α}
    (hcheck : ∀ item, check item ≠ .error fault) : items.forM check ≠ .error fault := by
  induction items with
  | nil => exact pure_ne_error
  | cons item items ih => exact bind_ne_error (hcheck item) fun _ => ih

theorem mapM_ne_error {operation : α → Except ε β} {items : List α}
    (hoperation : ∀ item, operation item ≠ .error fault) :
    items.mapM operation ≠ .error fault := by
  induction items with
  | nil => exact pure_ne_error
  | cons item items ih =>
      rw [List.mapM_cons]
      exact bind_ne_error (hoperation item) fun _ => bind_ne_error ih fun _ => pure_ne_error

theorem foldlM_ne_error {operation : β → α → Except ε β} {items : List α} {start : β}
    (hoperation : ∀ state item, operation state item ≠ .error fault) :
    items.foldlM operation start ≠ .error fault := by
  induction items generalizing start with
  | nil => exact pure_ne_error
  | cons item items ih =>
      rw [List.foldlM_cons]
      exact bind_ne_error (hoperation start item) fun _ => ih

end Never

/-! ## Sums -/

theorem eq_of_narrow_eq_ok {value amount : Nat} (hnarrow : Decimal.narrow value = .ok amount) :
    amount = value := by
  unfold Decimal.narrow at hnarrow
  split at hnarrow
  · exact (Except.ok.inj hnarrow).symm
  · cases hnarrow

/-- A sum of amounts that fits is the exact sum. -/
theorem eq_of_add_eq_ok {first second total : Amount}
    (hadd : Decimal.add first second = .ok total) :
    total = first + second ∧ first + second ≤ Quantity.maxAmount := by
  unfold Decimal.add Decimal.narrow at hadd
  split at hadd
  · exact ⟨(Except.ok.inj hadd).symm, ‹_›⟩
  · cases hadd

/-- So is that of a list. -/
theorem eq_of_sum_eq_ok {amounts : List Amount} {total : Amount}
    (hsum : Decimal.sum amounts = .ok total) : total = amounts.sum := by
  -- the sum may start anywhere
  have key : ∀ (amounts : List Amount) (start : Amount),
      amounts.foldlM Decimal.add start = .ok total → total = start + amounts.sum := by
    intro amounts
    induction amounts with
    | nil => exact fun start hsum => (pure_eq_ok.mp hsum).symm
    | cons amount amounts ih =>
        intro start hsum
        rw [List.foldlM_cons] at hsum
        obtain ⟨next, hnext, hrest⟩ := bind_eq_ok.mp hsum
        rw [ih next hrest, (eq_of_add_eq_ok hnext).1, List.sum_cons, Nat.add_assoc]
  exact (key amounts 0 hsum).trans (Nat.zero_add _)

theorem narrow_eq_ok {value : Nat} (hvalue : value ≤ Quantity.maxAmount) :
    Decimal.narrow value = .ok value :=
  if_pos hvalue

theorem add_eq_ok {first second : Amount} (hsum : first + second ≤ Quantity.maxAmount) :
    Decimal.add first second = .ok (first + second) :=
  if_pos hsum

/-- The sum of a list can be formed if it fits. -/
theorem sum_eq_ok {amounts : List Amount} (hsum : amounts.sum ≤ Quantity.maxAmount) :
    Decimal.sum amounts = .ok amounts.sum := by
  -- the sum may start anywhere
  have key : ∀ (amounts : List Amount) (start : Amount),
      start + amounts.sum ≤ Quantity.maxAmount →
        amounts.foldlM Decimal.add start = .ok (start + amounts.sum) := by
    intro amounts
    induction amounts with
    | nil => exact fun start _ => rfl
    | cons amount amounts ih =>
        intro start hfits
        rw [List.sum_cons, ← Nat.add_assoc] at hfits
        have hnext : Decimal.add start amount = .ok (start + amount) :=
          add_eq_ok (Nat.le_trans (Nat.le_add_right _ _) hfits)
        rw [List.foldlM_cons, hnext, List.sum_cons, ← Nat.add_assoc]
        exact ih _ hfits
  have hstart := key amounts 0 (by rwa [Nat.zero_add])
  rwa [Nat.zero_add] at hstart

end FeeDistribution.Fallible
