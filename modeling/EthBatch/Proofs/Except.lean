/-!
# Results that may be errors

How a result is put together from parts, read backwards: what a success says about its parts.
-/

namespace Except

universe u v

variable {ε : Type u} {α β : Type v}

@[simp] theorem ok_bind (a : α) (f : α → Except ε β) : (Except.ok a >>= f) = f a := rfl

@[simp] theorem error_bind (e : ε) (f : α → Except ε β) :
    ((Except.error e : Except ε α) >>= f) = .error e := rfl

theorem bind_eq_ok {x : Except ε α} {f : α → Except ε β} {b : β} :
    (x >>= f) = .ok b ↔ ∃ a, x = .ok a ∧ f a = .ok b := by
  cases x <;> simp

theorem bind_eq_error {x : Except ε α} {f : α → Except ε β} {e : ε} :
    (x >>= f) = .error e ↔ x = .error e ∨ ∃ a, x = .ok a ∧ f a = .error e := by
  cases x <;> simp

theorem map_eq_ok {x : Except ε α} {f : α → β} {b : β} :
    x.map f = .ok b ↔ ∃ a, x = .ok a ∧ f a = b := by
  cases x <;> simp [Except.map]

theorem map_eq_error {x : Except ε α} {f : α → β} {e : ε} :
    x.map f = .error e ↔ x = .error e := by
  cases x <;> simp [Except.map]

@[simp] theorem mapError_ok {ε' : Type u} (a : α) (f : ε → ε') :
    (Except.ok a : Except ε α).mapError f = .ok a := rfl

theorem mapError_eq_ok {ε' : Type u} {x : Except ε α} {f : ε → ε'} {a : α} :
    x.mapError f = .ok a ↔ x = .ok a := by
  cases x with
  | ok b => simp
  | error e => exact iff_of_false nofun nofun

theorem toOption_eq_some {x : Except ε α} {a : α} : x.toOption = some a ↔ x = .ok a := by
  cases x <;> simp [Except.toOption]

theorem map_bind {γ : Type v} (x : Except ε α) (f : α → Except ε β) (g : β → γ) :
    (x >>= f).map g = x >>= fun a => (f a).map g := by
  cases x <;> rfl

/-! ## Errors that do not occur -/

/-- The result is not the given error. -/
def Avoids (e : ε) (x : Except ε α) : Prop := x ≠ .error e

namespace Avoids

variable {e : ε} {x : Except ε α} {f : α → Except ε β}

@[simp] theorem ok (e : ε) (a : α) : Avoids e (.ok a) := nofun

@[simp] theorem error_iff {e' : ε} : Avoids e (.error e' : Except ε α) ↔ e' ≠ e := by
  simp [Avoids]

theorem bind (first : Avoids e x) (rest : ∀ a, x = .ok a → Avoids e (f a)) :
    Avoids e (x >>= f) := by
  cases x with
  | error e' => simpa using first
  | ok a => exact rest a rfl

theorem map {f : α → β} (h : Avoids e x) : Avoids e (x.map f) := by
  cases x with
  | error e' => simpa [Except.map] using h
  | ok a => simp [Except.map]

end Avoids

/-! ## Traversals -/

section

universe w

variable {γ : Type w} {g : γ → Except ε β} {xs : List γ}

theorem mapM_congr {g' : γ → Except ε β} (h : ∀ x ∈ xs, g x = g' x) : xs.mapM g = xs.mapM g' := by
  induction xs with
  | nil => rfl
  | cons x xs ih =>
      obtain ⟨first, rest⟩ := List.forall_mem_cons.mp h
      rw [List.mapM_cons, List.mapM_cons, first, ih rest]

/-- What is done to every result of a traversal can be done on the way. -/
theorem mapM_map {δ : Type v} (h : β → δ) :
    (xs.mapM fun x => (g x).map h) = (xs.mapM g).map (List.map h) := by
  induction xs with
  | nil => rfl
  | cons x xs ih =>
      rw [List.mapM_cons, List.mapM_cons, ih]
      cases g x with
      | error e => rfl
      | ok b => cases xs.mapM g <;> rfl

theorem mapM_isOk : (∃ bs, xs.mapM g = .ok bs) ↔ ∀ x ∈ xs, ∃ b, g x = .ok b := by
  induction xs with
  | nil => simp [pure, Except.pure]
  | cons x xs ih =>
      rw [List.mapM_cons, List.forall_mem_cons, ← ih]
      cases g x with
      | error e => simp
      | ok b => cases xs.mapM g <;> simp [pure, Except.pure]

/-- A traversal ends with the error of the first item that has one. -/
theorem mapM_eq_error {e : ε} : xs.mapM g = .error e ↔ ∃ before x after,
    xs = before ++ x :: after ∧ (∀ y ∈ before, ∃ b, g y = .ok b) ∧ g x = .error e := by
  induction xs with
  | nil => simp [pure, Except.pure]
  | cons y xs ih =>
      rw [List.mapM_cons, bind_eq_error]
      constructor
      · rintro (here | ⟨b, first, rest⟩)
        · exact ⟨[], y, xs, rfl, nofun, here⟩
        · have rest := (bind_eq_error.mp rest).resolve_right (by simp [pure, Except.pure])
          obtain ⟨before, x, after, rfl, fine, here⟩ := ih.mp rest
          exact ⟨y :: before, x, after, rfl, List.forall_mem_cons.mpr ⟨⟨b, first⟩, fine⟩, here⟩
      · rintro ⟨before, x, after, split, fine, here⟩
        cases before with
        | nil =>
            obtain ⟨rfl, rfl⟩ := List.cons.inj split
            exact .inl here
        | cons z before =>
            obtain ⟨rfl, rfl⟩ := List.cons.inj split
            obtain ⟨⟨b, first⟩, fine⟩ := List.forall_mem_cons.mp fine
            exact .inr ⟨b, first, bind_eq_error.mpr (.inl (ih.mpr ⟨_, x, after, rfl, fine, here⟩))⟩

theorem Avoids.mapM {e : ε} (h : ∀ x ∈ xs, Avoids e (g x)) : Avoids e (xs.mapM g) := by
  intro fails
  obtain ⟨_, x, _, rfl, _, here⟩ := mapM_eq_error.mp fails
  exact h x (by simp) here

end

section

variable {δ : Type} {p : δ → Except ε Bool} {xs ys : List δ}

theorem Avoids.filterM {e : ε} (h : ∀ x ∈ xs, Avoids e (p x)) : Avoids e (xs.filterM p) := by
  have step (kept : List δ) : Avoids e (xs.filterAuxM p kept) := by
    induction xs generalizing kept with
    | nil => exact .ok e kept
    | cons x xs ih =>
        obtain ⟨first, rest⟩ := List.forall_mem_cons.mp h
        exact first.bind fun _ _ => ih rest _
  exact (step []).bind fun _ _ => .ok e _

theorem mem_of_mem_filterAuxM {kept : List δ} (h : xs.filterAuxM p kept = .ok ys) {y : δ}
    (mem : y ∈ ys) : y ∈ xs ∨ y ∈ kept := by
  induction xs generalizing kept with
  | nil =>
      obtain rfl := Except.ok.inj h
      exact .inr mem
  | cons x xs ih =>
      obtain ⟨keep, _, h⟩ := bind_eq_ok.mp h
      rcases ih h with later | earlier
      · exact .inl (List.mem_cons_of_mem x later)
      · cases keep with
        | false => exact .inr earlier
        | true =>
            rcases List.mem_cons.mp earlier with rfl | earlier
            · exact .inl List.mem_cons_self
            · exact .inr earlier

theorem mem_of_mem_filterM (h : xs.filterM p = .ok ys) {y : δ} (mem : y ∈ ys) : y ∈ xs := by
  obtain ⟨all, kept, h⟩ := bind_eq_ok.mp h
  obtain rfl := Except.ok.inj h
  exact (mem_of_mem_filterAuxM kept (List.mem_reverse.mp mem)).resolve_right List.not_mem_nil

end

end Except
