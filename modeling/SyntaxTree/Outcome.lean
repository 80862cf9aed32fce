/-
# Outcomes

An operation gives notices in order and then ends in a value or an error.  The notices given
on the way to an error are kept.  Outcomes form a lawful monad: sequencing appends notices
and stops at the first error.
-/
import SyntaxTree.Notice

namespace SyntaxTree

/-! ## 1. The type -/

/-- Notices in order, and how the operation ended. -/
structure Outcome (ε α : Type) where
  notices : List Notice
  result : Except ε α

namespace Outcome

variable {ε ε' α β γ : Type}

/-- A value without notices. -/
def ok (a : α) : Outcome ε α := ⟨[], .ok a⟩

/-- An error without notices. -/
def fail (e : ε) : Outcome ε α := ⟨[], .error e⟩

/-- Gives notices and goes on. -/
def notes (notices : List Notice) : Outcome ε Unit := ⟨notices, .ok ()⟩

/-- Gives one notice and goes on. -/
def note (notice : Notice) : Outcome ε Unit := notes [notice]

/-- An operation that gives no notices. -/
def ofExcept (result : Except ε α) : Outcome ε α := ⟨[], result⟩

/-- Goes on with the value of `x`, if it has one. -/
def bind (x : Outcome ε α) (f : α → Outcome ε β) : Outcome ε β :=
  match x.result with
  | .error e => ⟨x.notices, .error e⟩
  | .ok a => ⟨x.notices ++ (f a).notices, (f a).result⟩

/-- Changes the value, if there is one. -/
def map (f : α → β) (x : Outcome ε α) : Outcome ε β := ⟨x.notices, x.result.map f⟩

/-- The same operation after earlier notices. -/
def after (x : Outcome ε α) (notices : List Notice) : Outcome ε α :=
  ⟨notices ++ x.notices, x.result⟩

/-- Changes the error, if there is one. -/
def mapError (f : ε → ε') (x : Outcome ε α) : Outcome ε' α :=
  match x.result with
  | .error e => ⟨x.notices, .error (f e)⟩
  | .ok a => ⟨x.notices, .ok a⟩

/-- The value, if there is one. -/
def value? (x : Outcome ε α) : Option α :=
  match x.result with
  | .ok a => some a
  | .error _ => none

instance : Monad (Outcome ε) where
  pure := ok
  bind := bind

instance : MonadExcept ε (Outcome ε) where
  throw := fail
  tryCatch x handler :=
    match x.result with
    | .ok _ => x
    | .error e => ⟨x.notices ++ (handler e).notices, (handler e).result⟩

/-! ## 2. Laws -/

@[ext] theorem ext {x y : Outcome ε α} (hn : x.notices = y.notices) (hr : x.result = y.result) :
    x = y := by
  cases x
  cases y
  simp_all

@[simp] theorem pure_eq (a : α) : (pure a : Outcome ε α) = ok a := rfl

@[simp] theorem ok_bind (a : α) (f : α → Outcome ε β) : (ok a >>= f) = f a := by
  ext <;> simp [Bind.bind, bind, ok]

@[simp] theorem fail_bind (e : ε) (f : α → Outcome ε β) : (fail e >>= f) = fail e := rfl

@[simp] theorem notes_bind (ns : List Notice) (f : Unit → Outcome ε β) :
    (notes ns >>= f) = ⟨ns ++ (f ()).notices, (f ()).result⟩ := rfl

theorem bind_ok (x : Outcome ε α) : (x >>= ok) = x := by
  rcases x with ⟨ns, _ | a⟩ <;> simp [Bind.bind, bind, ok]

theorem bind_assoc (x : Outcome ε α) (f : α → Outcome ε β) (g : β → Outcome ε γ) :
    (x >>= f >>= g) = x >>= fun a => f a >>= g := by
  rcases x with ⟨ns, _ | a⟩
  · rfl
  · simp only [Bind.bind, bind]
    rcases f a with ⟨ms, _ | b⟩ <;> simp

theorem bind_of_ok {x : Outcome ε α} {a : α} (h : x.result = .ok a) (f : α → Outcome ε β) :
    (x >>= f) = (f a).after x.notices := by
  simp only [Bind.bind, bind, h, after]

theorem bind_of_error {x : Outcome ε α} {e : ε} (h : x.result = .error e) (f : α → Outcome ε β) :
    (x >>= f) = ⟨x.notices, .error e⟩ := by
  simp only [Bind.bind, bind, h]

theorem map_bind (x : Outcome ε α) (g : α → β) (f : β → Outcome ε γ) :
    (x.map g >>= f) = x >>= fun a => f (g a) := by
  rcases x with ⟨ns, _ | a⟩ <;> rfl

theorem bind_pure_eq_map (x : Outcome ε α) (g : α → β) :
    (x >>= fun a => pure (g a)) = x.map g := by
  rcases x with ⟨ns, _ | a⟩ <;> simp [Bind.bind, bind, map, ok, Except.map]

/-- What follows an operation matters only for the value it ends in. -/
theorem bind_congr {x : Outcome ε α} {f g : α → Outcome ε β}
    (h : ∀ a : α, x.result = .ok a → f a = g a) : (x >>= f) = x >>= g := by
  rcases hx : x.result with e | a
  · rw [bind_of_error hx, bind_of_error hx]
  · rw [bind_of_ok hx, bind_of_ok hx, h a hx]

@[simp] theorem mapError_ok (g : ε → ε') (a : α) : (ok a : Outcome ε α).mapError g = ok a := rfl

@[simp] theorem mapError_fail (g : ε → ε') (e : ε) :
    (fail e : Outcome ε α).mapError g = fail (g e) := rfl

@[simp] theorem mapError_notes (g : ε → ε') (ns : List Notice) :
    (notes ns : Outcome ε Unit).mapError g = notes ns := rfl

theorem mapError_bind (g : ε → ε') (x : Outcome ε α) (f : α → Outcome ε β) :
    (x >>= f).mapError g = x.mapError g >>= fun a => (f a).mapError g := by
  rcases x with ⟨ns, _ | a⟩
  · rfl
  · simp only [Bind.bind, bind, mapError]
    cases (f a).result <;> rfl

/-- Other names for the errors leave the values as they are. -/
theorem result_mapError_eq_ok {x : Outcome ε α} {g : ε → ε'} {a : α} :
    (x.mapError g).result = .ok a ↔ x.result = .ok a := by
  rcases x with ⟨ns, _ | b⟩ <;> simp [mapError]

/-! ## 3. The value alone

Without the notices and the cause of an error, sequencing outcomes is sequencing options. -/

@[simp] theorem value?_ok (a : α) : (ok a : Outcome ε α).value? = some a := rfl

@[simp] theorem value?_fail (e : ε) : (fail e : Outcome ε α).value? = none := rfl

@[simp] theorem value?_notes (ns : List Notice) : (notes ns : Outcome ε Unit).value? = some () :=
  rfl

@[simp] theorem value?_note (n : Notice) : (note n : Outcome ε Unit).value? = some () := rfl

@[simp] theorem value?_bind (x : Outcome ε α) (f : α → Outcome ε β) :
    (x >>= f).value? = x.value?.bind fun a => (f a).value? := by
  rcases x with ⟨ns, _ | a⟩ <;> rfl

theorem value?_eq_some {x : Outcome ε α} {a : α} : x.value? = some a ↔ x.result = .ok a := by
  rcases x with ⟨ns, _ | b⟩ <;> simp [value?]

theorem value?_eq_none {x : Outcome ε α} : x.value? = none ↔ ∃ e : ε, x.result = .error e := by
  rcases x with ⟨ns, e | b⟩ <;> simp [value?]

/-- A sequence ends in a value if both of its parts do. -/
theorem result_bind_eq_ok {x : Outcome ε α} {f : α → Outcome ε β} {b : β} :
    (x >>= f).result = .ok b ↔ ∃ a : α, x.result = .ok a ∧ (f a).result = .ok b := by
  simp only [← value?_eq_some, value?_bind, Option.bind_eq_some_iff]

/-! ## 4. The error alone -/

/-- The error, if there is one. -/
def error? (x : Outcome ε α) : Option ε :=
  match x.result with
  | .ok _ => none
  | .error e => some e

theorem error?_eq_some {x : Outcome ε α} {e : ε} : x.error? = some e ↔ x.result = .error e := by
  rcases x with ⟨ns, e' | b⟩ <;> simp [error?]

@[simp] theorem error?_map (g : α → β) (x : Outcome ε α) : (x.map g).error? = x.error? := by
  rcases x with ⟨ns, _ | a⟩ <;> rfl

theorem error?_bind_of_ok {x : Outcome ε α} {a : α} (h : x.result = .ok a)
    (f : α → Outcome ε β) : (x >>= f).error? = (f a).error? := by
  rw [bind_of_ok h]
  rfl

theorem error?_bind_of_error {x : Outcome ε α} {e : ε} (h : x.result = .error e)
    (f : α → Outcome ε β) : (x >>= f).error? = some e := by
  rw [bind_of_error h]
  rfl

@[simp] theorem error?_bind_pure (x : Outcome ε α) (g : α → β) :
    (x >>= fun a => pure (g a)).error? = x.error? := by
  rcases x with ⟨ns, _ | a⟩ <;> rfl

/-- The error of a sequence is the first error, where the second part fails alike after every
value. -/
theorem error?_bind_of_const {x : Outcome ε α} {f : α → Outcome ε β} {e? : Option ε}
    (h : ∀ a : α, (f a).error? = e?) : (x >>= f).error? = x.error?.or e? := by
  rcases hx : x.result with e | a
  · rw [error?_bind_of_error hx, error?_eq_some.2 hx, Option.some_or]
  · rw [error?_bind_of_ok hx, h a, error?, hx, Option.none_or]

end Outcome
end SyntaxTree
