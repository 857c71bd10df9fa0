import TensorResize.Error

/-!
# Checks in sequence

When a sequence of checks passes, and with which result.
-/

namespace TensorResize

variable {α β : Type}

@[simp] theorem bind_eq_ok {ε : Type} {x : Except ε α} {f : α → Except ε β} {b : β} :
    x >>= f = .ok b ↔ ∃ a, x = .ok a ∧ f a = .ok b := by
  cases x with
  | error e => simp [bind, Except.bind]
  | ok a => simp [bind, Except.bind]

@[simp] theorem pure_eq_ok {ε : Type} {a b : α} : (pure a : Except ε α) = .ok b ↔ a = b := by
  simp [pure, Except.pure]

theorem bind_eq_error {ε : Type} {x : Except ε α} {f : α → Except ε β} {e : ε} :
    x >>= f = .error e ↔ x = .error e ∨ ∃ a, x = .ok a ∧ f a = .error e := by
  cases x with
  | error e => simp [bind, Except.bind]
  | ok a => simp [bind, Except.bind]

@[simp] theorem map_eq_ok {ε : Type} {x : Except ε α} {f : α → β} {b : β} :
    x.map f = .ok b ↔ ∃ a, x = .ok a ∧ f a = b := by
  cases x with
  | error e => simp [Except.map]
  | ok a => simp [Except.map]

@[simp] theorem orError_eq_ok {value : Option α} {e : LoweringError} {a : α} :
    orError value e = .ok a ↔ value = some a := by
  cases value with
  | none => simp [orError]
  | some b => simp [orError]

@[simp] theorem refuseIf_eq_ok {condition : Bool} {e : LoweringError} {u : Unit} :
    refuseIf condition e = .ok u ↔ condition = false := by
  cases condition with
  | false => simp [refuseIf]
  | true => simp [refuseIf]

@[simp] theorem checkEntries_eq_ok {what : String} {entries : Nat} {tag : String} {u : Unit} :
    checkEntries what entries tag = .ok u ↔ entries ≤ Word.maxEntries := by
  by_cases h : entries ≤ Word.maxEntries
  · simp [checkEntries, h]
  · simp [checkEntries, h]

theorem mapM_eq_pure_map {m : Type → Type} [Monad m] [LawfulMonad m] {f : α → m β} {g : α → β}
    {l : List α} (h : ∀ x ∈ l, f x = pure (g x)) : l.mapM f = pure (l.map g) := by
  induction l with
  | nil => rfl
  | cons x l ih =>
    rw [List.mapM_cons, h x (List.mem_cons_self ..), pure_bind,
      ih fun y hy => h y (List.mem_cons_of_mem x hy), pure_bind, List.map_cons]

end TensorResize
