import AvrConform.Journal.Entry
set_option autoImplicit false

namespace AvrConform

structure Logged (α : Type) where
  value : α
  entries : List Entry

namespace Logged

instance : Monad Logged where
  pure x := ⟨x, []⟩
  bind x f :=
    let y := f x.value
    ⟨y.value, x.entries ++ y.entries⟩

def write (e : Entry) : Logged Unit := ⟨(), [e]⟩

@[simp] theorem value_pure {α : Type} (x : α) : (pure x : Logged α).value = x := rfl

@[simp] theorem entries_pure {α : Type} (x : α) : (pure x : Logged α).entries = [] := rfl

@[simp] theorem value_bind {α β : Type} (x : Logged α) (f : α → Logged β) :
    (x >>= f).value = (f x.value).value := rfl

@[simp] theorem entries_bind {α β : Type} (x : Logged α) (f : α → Logged β) :
    (x >>= f).entries = x.entries ++ (f x.value).entries := rfl

@[simp] theorem entries_write (e : Entry) : (write e).entries = [e] := rfl

instance : LawfulMonad Logged :=
  LawfulMonad.mk' Logged
    (by intro α x; cases x; simp [Functor.map])
    (by intro α β x f; simp [bind, pure])
    (by intro α β γ x f g; simp [bind, List.append_assoc])

/-- Journal entries have no influence on what is computed. -/
theorem value_foldlM {α β : Type} (f : β → α → Logged β) (xs : List α) (x : β) :
    (xs.foldlM f x).value = xs.foldl (fun x y => (f x y).value) x := by
  induction xs generalizing x with
  | nil => rfl
  | cons y ys ih => rw [List.foldlM_cons, value_bind, ih, List.foldl_cons]

/-- Passes a state through the elements of a list, one after the other. -/
def thread {α β σ : Type} (f : α → σ → Logged (β × σ)) : List α → σ → Logged (List β × σ)
  | [], st => pure ([], st)
  | x :: xs, st => do
    let (y, st) ← f x st
    let (ys, st) ← thread f xs st
    pure (y :: ys, st)

@[simp] theorem value_thread_nil {α β σ : Type} (f : α → σ → Logged (β × σ)) (st : σ) :
    (thread f [] st).value = ([], st) := rfl

theorem value_thread_cons {α β σ : Type} (f : α → σ → Logged (β × σ)) (x : α) (xs : List α)
    (st : σ) :
    (thread f (x :: xs) st).value =
      ((f x st).value.1 :: (thread f xs (f x st).value.2).value.1,
        (thread f xs (f x st).value.2).value.2) := rfl

theorem value_thread_append {α β σ : Type} (f : α → σ → Logged (β × σ)) (xs ys : List α) (st : σ) :
    (thread f (xs ++ ys) st).value =
      ((thread f xs st).value.1 ++ (thread f ys (thread f xs st).value.2).value.1,
        (thread f ys (thread f xs st).value.2).value.2) := by
  induction xs generalizing st with
  | nil => rfl
  | cons x xs ih => simp [value_thread_cons, ih]

theorem length_thread {α β σ : Type} (f : α → σ → Logged (β × σ)) (xs : List α) (st : σ) :
    (thread f xs st).value.1.length = xs.length := by
  induction xs generalizing st with
  | nil => rfl
  | cons x xs ih => simp [value_thread_cons, ih]

end Logged

end AvrConform
