import DeadBranch.Event

/-!
# Traced results

A rewrite yields a tree, counts what it rewrote and logs what it saw. `Traced`
carries the three together: counts add up and logs follow one another in the
order in which the parts were computed.
-/
namespace DeadBranch

/-- A value with the number of rewrites behind it and their log. -/
structure Traced (α : Type) where
  value : α
  count : Nat := 0
  log : List Event := []
deriving Repr, DecidableEq

namespace Traced

variable {α β : Type}

/-- One counted rewrite. -/
def rewrite (e : Event) (a : α) : Traced α := ⟨a, 1, [e]⟩

/-- An entry in the log that counts for nothing. -/
def note (e : Event) (a : α) : Traced α := ⟨a, 0, [e]⟩

@[simp] theorem value_rewrite (e : Event) (a : α) : (rewrite e a).value = a := rfl
@[simp] theorem count_rewrite (e : Event) (a : α) : (rewrite e a).count = 1 := rfl
@[simp] theorem log_rewrite (e : Event) (a : α) : (rewrite e a).log = [e] := rfl

@[simp] theorem value_note (e : Event) (a : α) : (note e a).value = a := rfl
@[simp] theorem count_note (e : Event) (a : α) : (note e a).count = 0 := rfl
@[simp] theorem log_note (e : Event) (a : α) : (note e a).log = [e] := rfl

def bind (x : Traced α) (f : α → Traced β) : Traced β :=
  let y := f x.value
  ⟨y.value, x.count + y.count, x.log ++ y.log⟩

instance : Monad Traced where
  pure a := ⟨a, 0, []⟩
  bind := bind

@[simp] theorem value_pure (a : α) : (pure a : Traced α).value = a := rfl
@[simp] theorem count_pure (a : α) : (pure a : Traced α).count = 0 := rfl
@[simp] theorem log_pure (a : α) : (pure a : Traced α).log = [] := rfl

@[simp] theorem value_bind (x : Traced α) (f : α → Traced β) :
    (x >>= f).value = (f x.value).value := rfl
@[simp] theorem count_bind (x : Traced α) (f : α → Traced β) :
    (x >>= f).count = x.count + (f x.value).count := rfl
@[simp] theorem log_bind (x : Traced α) (f : α → Traced β) :
    (x >>= f).log = x.log ++ (f x.value).log := rfl

@[simp] theorem value_map (f : α → β) (x : Traced α) : (f <$> x).value = f x.value := rfl
@[simp] theorem count_map (f : α → β) (x : Traced α) : (f <$> x).count = x.count := rfl
@[simp] theorem log_map (f : α → β) (x : Traced α) : (f <$> x).log = x.log :=
  List.append_nil x.log

@[ext] theorem ext {x y : Traced α} (hv : x.value = y.value) (hc : x.count = y.count)
    (hl : x.log = y.log) : x = y := by
  cases x; cases y; simp_all

instance : LawfulMonad Traced :=
  LawfulMonad.mk' Traced (fun _ => by ext1 <;> simp)
    (fun _ _ => by ext1 <;> simp)
    (fun _ _ _ => by ext1 <;> simp [Nat.add_assoc])

end Traced
end DeadBranch
