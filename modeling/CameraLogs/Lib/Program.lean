import Mathlib.Data.List.Basic
import Mathlib.Tactic.Basic

/-!
# Stateful programs that may stop with an error

`Prog σ ε α` is a program over a state `σ` that returns an `α` or stops with an
error `ε`. The state it has reached is kept on both exits: a process that dies
half-way leaves behind what it has already written, and the properties proved
with this file are mostly about exactly that state.

`Triple P m Q E` reads: from a state satisfying `P`, a normal return of `m`
satisfies `Q` and an error exit satisfies `E`. One rule per construct follows;
callers chain them and never unfold a program they have a triple for.
-/

namespace CameraLogs.Lib

/-- A program over the state `σ` that may stop with an error `ε`. -/
abbrev Prog (σ ε : Type) := ExceptT ε (StateM σ)

namespace Prog

variable {σ ε α β : Type}

/-- Run a program: how it ended, and the state it left behind. -/
def exec (m : Prog σ ε α) (s : σ) : Except ε α × σ := m.run.run s

@[simp] theorem exec_get (s : σ) : (get : Prog σ ε σ).exec s = (.ok s, s) := rfl

@[simp] theorem exec_set (t s : σ) : (set t : Prog σ ε PUnit).exec s = (.ok ⟨⟩, t) := rfl

@[simp] theorem exec_modify (f : σ → σ) (s : σ) :
    (modify f : Prog σ ε PUnit).exec s = (.ok ⟨⟩, f s) := rfl

/-- A sequence stops at the first error, in the state that error left. -/
theorem exec_bind (m : Prog σ ε α) (f : α → Prog σ ε β) (s : σ) :
    (m >>= f).exec s = match m.exec s with
      | (.ok a, t) => (f a).exec t
      | (.error e, t) => (.error e, t) := by
  show (ExceptT.bindCont f (m s).1) (m s).2 = _
  rw [show m.exec s = m s from rfl]
  rcases m s with ⟨_ | _, _⟩ <;> rfl

/-- A handler runs in the state the error left. -/
theorem exec_tryCatch (m : Prog σ ε α) (h : ε → Prog σ ε α) (s : σ) :
    (tryCatch m h).exec s = match m.exec s with
      | (.ok a, t) => (.ok a, t)
      | (.error e, t) => (h e).exec t := by
  show ((MonadExcept.tryCatch m h : Prog σ ε α).run.run s) = _
  rw [show m.exec s = m s from rfl]
  simp only [MonadExcept.tryCatch, tryCatchThe, MonadExceptOf.tryCatch, ExceptT.tryCatch]
  show (match (m s).1 with
    | Except.ok a => pure (Except.ok a)
    | Except.error e => h e : StateM σ (Except ε α)) (m s).2 = _
  rcases m s with ⟨_ | _, _⟩ <;> rfl

theorem exec_bind_of_ok {m : Prog σ ε α} {f : α → Prog σ ε β} {s t : σ} {a : α}
    (h : m.exec s = (.ok a, t)) : (m >>= f).exec s = (f a).exec t := by
  rw [exec_bind, h]

theorem exec_bind_of_error {m : Prog σ ε α} {f : α → Prog σ ε β} {s t : σ} {e : ε}
    (h : m.exec s = (.error e, t)) : (m >>= f).exec s = (.error e, t) := by
  rw [exec_bind, h]

/-! ## Triples -/

/-- From `P`, a normal return of `m` satisfies `Q` and an error exit `E`. -/
def Triple (P : σ → Prop) (m : Prog σ ε α) (Q : α → σ → Prop) (E : ε → σ → Prop) : Prop :=
  ∀ s, P s → match m.exec s with
    | (.ok a, t) => Q a t
    | (.error e, t) => E e t

variable {P P' : σ → Prop} {Q Q' : α → σ → Prop} {R : β → σ → Prop} {E E' : ε → σ → Prop}

theorem Triple.conseq {m : Prog σ ε α} (h : Triple P m Q E) (hP : ∀ s, P' s → P s)
    (hQ : ∀ a s, Q a s → Q' a s) (hE : ∀ e s, E e s → E' e s) : Triple P' m Q' E' := by
  intro s hs
  have hm := h s (hP s hs)
  split at hm
  · exact hQ _ _ hm
  · exact hE _ _ hm

theorem Triple.pure {a : α} (h : ∀ s, P s → Q a s) :
    Triple P (Pure.pure a : Prog σ ε α) Q E := fun s hs => h s hs

theorem Triple.throw {e : ε} (h : ∀ s, P s → E e s) :
    Triple P (MonadExcept.throw e : Prog σ ε α) Q E := fun s hs => h s hs

theorem Triple.bind {m : Prog σ ε α} {f : α → Prog σ ε β} (hm : Triple P m Q E)
    (hf : ∀ a, Triple (Q a) (f a) R E) : Triple P (m >>= f) R E := by
  intro s hs
  rw [exec_bind]
  have h := hm s hs
  rcases he : m.exec s with ⟨e | a, t⟩ <;> rw [he] at h
  · exact h
  · exact hf a t h

/-- Reading the state: the continuation knows which state it was. -/
theorem Triple.get_bind {f : σ → Prog σ ε β}
    (h : ∀ s, P s → Triple (· = s) (f s) R E) : Triple P (get >>= f) R E := by
  intro s hs
  rw [exec_bind_of_ok (exec_get s)]
  exact h s hs s rfl

theorem Triple.modify {f : σ → σ} {Q : PUnit → σ → Prop} (h : ∀ s, P s → Q ⟨⟩ (f s)) :
    Triple P (MonadStateOf.modifyGet fun s => (PUnit.unit, f s) : Prog σ ε PUnit) Q E :=
  fun s hs => h s hs

theorem Triple.tryCatch {m : Prog σ ε α} {h : ε → Prog σ ε α} {E₁ : ε → σ → Prop}
    (hm : Triple P m Q E₁) (hh : ∀ e, Triple (E₁ e) (h e) Q E) :
    Triple P (MonadExcept.tryCatch m h) Q E := by
  intro s hs
  rw [exec_tryCatch]
  have hms := hm s hs
  rcases he : m.exec s with ⟨e | a, t⟩ <;> rw [he] at hms
  · exact hh e t hms
  · exact hms

/-- The loop rule. `I done` holds when the items `done` have been handled; each
turn moves one item over, and an error may leave only states in `E`. -/
theorem Triple.forM {I : List α → σ → Prop} {f : α → Prog σ ε PUnit} {xs : List α}
    (hstep : ∀ done x rest, xs = done ++ x :: rest →
      Triple (I done) (f x) (fun _ => I (done ++ [x])) E) :
    Triple (I []) (xs.forM f) (fun _ => I xs) E := by
  suffices h : ∀ done rest, xs = done ++ rest →
      Triple (I done) (rest.forM f) (fun _ => I xs) E from h [] xs rfl
  intro done rest
  induction rest generalizing done with
  | nil =>
    intro hxs
    rw [List.append_nil] at hxs
    subst hxs
    exact Triple.pure fun _ hs => hs
  | cons x rest ih =>
    intro hxs
    refine Triple.bind (hstep done x rest hxs) fun _ => ?_
    exact ih (done ++ [x]) (by rw [hxs, List.append_assoc]; rfl)

/-! ## Kept on both exits -/

/-- Whichever way `m` ends, `P` still holds. -/
def Preserves (P : σ → Prop) (m : Prog σ ε α) : Prop :=
  Triple P m (fun _ => P) fun _ => P

theorem Preserves.exec {m : Prog σ ε α} (h : Preserves P m) {s : σ} (hs : P s) :
    P (m.exec s).2 := by
  have hm := h s hs
  split at hm <;> simp [*]

theorem Preserves.pure {a : α} : Preserves P (Pure.pure a : Prog σ ε α) :=
  Triple.pure fun _ hs => hs

theorem Preserves.throw {e : ε} : Preserves P (MonadExcept.throw e : Prog σ ε α) :=
  Triple.throw fun _ hs => hs

theorem Preserves.modify {f : σ → σ} (h : ∀ s, P s → P (f s)) :
    Preserves P (MonadStateOf.modifyGet fun s => (PUnit.unit, f s) : Prog σ ε PUnit) :=
  Triple.modify h

theorem Preserves.bind {m : Prog σ ε α} {f : α → Prog σ ε β} (hm : Preserves P m)
    (hf : ∀ a, Preserves P (f a)) : Preserves P (m >>= f) :=
  Triple.bind hm hf

/-- Reading, where the continuation keeps `P` whatever was read. -/
theorem Preserves.get_bind {f : σ → Prog σ ε β} (h : ∀ s, Preserves P (f s)) :
    Preserves P (get >>= f) :=
  Triple.get_bind fun s hs => (h s).conseq (fun _ ht => ht ▸ hs) (fun _ _ h => h) fun _ _ h => h

theorem Preserves.tryCatch {m : Prog σ ε α} {h : ε → Prog σ ε α} (hm : Preserves P m)
    (hh : ∀ e, Preserves P (h e)) : Preserves P (MonadExcept.tryCatch m h) :=
  Triple.tryCatch hm hh

theorem Preserves.foldlM {f : β → α → Prog σ ε β} (h : ∀ b a, Preserves P (f b a)) (b : β)
    (xs : List α) : Preserves P (xs.foldlM f b) := by
  induction xs generalizing b with
  | nil => exact Preserves.pure
  | cons x xs ih =>
    rw [List.foldlM_cons]
    exact (h b x).bind ih

/-! ## Normal returns -/

/-- From the state `s` the program returns, and then `Q` holds. -/
def Returns (m : Prog σ ε α) (s : σ) (Q : α → σ → Prop) : Prop :=
  ∃ a t, m.exec s = (.ok a, t) ∧ Q a t

theorem Returns.mono {m : Prog σ ε α} {s : σ} (h : Returns m s Q) (hQ : ∀ a t, Q a t → Q' a t) :
    Returns m s Q' := by
  obtain ⟨a, t, hm, ha⟩ := h
  exact ⟨a, t, hm, hQ a t ha⟩

theorem Returns.pure {a : α} {s : σ} (h : Q a s) : Returns (Pure.pure a : Prog σ ε α) s Q :=
  ⟨a, s, rfl, h⟩

theorem Returns.bind {m : Prog σ ε α} {f : α → Prog σ ε β} {s : σ}
    (h : Returns m s fun a t => Returns (f a) t R) : Returns (m >>= f) s R := by
  obtain ⟨a, t, hm, b, u, hf, hR⟩ := h
  exact ⟨b, u, by rw [exec_bind_of_ok hm]; exact hf, hR⟩

theorem Returns.get_bind {f : σ → Prog σ ε β} {s : σ} (h : Returns (f s) s R) :
    Returns (get >>= f) s R := Returns.bind ⟨s, s, rfl, h⟩

theorem Returns.set_bind {f : PUnit → Prog σ ε β} {s t : σ} (h : Returns (f ⟨⟩) t R) :
    Returns (set t >>= f) s R := Returns.bind ⟨⟨⟩, t, rfl, h⟩

theorem Returns.modify {f : σ → σ} {Q : PUnit → σ → Prop} {s : σ} (h : Q ⟨⟩ (f s)) :
    Returns (MonadStateOf.modifyGet fun s => (PUnit.unit, f s) : Prog σ ε PUnit) s Q :=
  ⟨⟨⟩, f s, rfl, h⟩

/-- A program that returns does not reach its handler. -/
theorem Returns.tryCatch {m : Prog σ ε α} {h : ε → Prog σ ε α} {s : σ} (hm : Returns m s Q) :
    Returns (MonadExcept.tryCatch m h) s Q := by
  obtain ⟨a, t, heq, hQ⟩ := hm
  exact ⟨a, t, by rw [exec_tryCatch, heq], hQ⟩

/-- The loop rule of a fold: `I done b` holds when the items `done` have been handled. -/
theorem Returns.foldlM {I : List α → β → σ → Prop} {f : β → α → Prog σ ε β} {xs : List α} {b : β}
    {s : σ} (h₀ : I [] b s)
    (hstep : ∀ done x rest b s, xs = done ++ x :: rest → I done b s →
      Returns (f b x) s (I (done ++ [x]))) : Returns (xs.foldlM f b) s (I xs) := by
  suffices h : ∀ done rest b s, xs = done ++ rest → I done b s →
      Returns (rest.foldlM f b) s (I xs) from h [] xs b s rfl h₀
  intro done rest
  induction rest generalizing done with
  | nil =>
    intro b s hxs hb
    rw [List.append_nil] at hxs
    subst hxs
    exact Returns.pure hb
  | cons x rest ih =>
    intro b s hxs hb
    rw [List.foldlM_cons]
    refine Returns.bind ((hstep done x rest b s hxs hb).mono ?_)
    intro b' s' hb'
    exact ih (done ++ [x]) b' s' (by rw [hxs, List.append_assoc]; rfl) hb'

/-! ## Returns, unless something has gone wrong -/

/-- From the state `s`: `Q` after a return, and `E` if there is an error. -/
def Ends (m : Prog σ ε α) (s : σ) (Q : α → σ → Prop) (E : Prop) : Prop :=
  match m.exec s with
  | (.ok a, t) => Q a t
  | (.error _, _) => E

section Ends

variable {E : Prop}

theorem Ends.ok {m : Prog σ ε α} {s t : σ} {a : α} (h : Ends m s Q E)
    (hm : m.exec s = (.ok a, t)) : Q a t := by
  unfold Ends at h
  rw [hm] at h
  exact h

/-- Nothing has gone wrong: the program returns. -/
theorem Ends.returns {m : Prog σ ε α} {s : σ} (h : Ends m s Q E) (hE : ¬E) : Returns m s Q := by
  unfold Ends at h
  rcases hm : m.exec s with ⟨_ | a, t⟩
  · rw [hm] at h
    exact absurd h hE
  · rw [hm] at h
    exact ⟨a, t, hm, h⟩

theorem Ends.mono {m : Prog σ ε α} {s : σ} (h : Ends m s Q E) (hQ : ∀ a t, Q a t → Q' a t) :
    Ends m s Q' E := by
  unfold Ends at *
  rcases hm : m.exec s with ⟨_ | a, t⟩
  · rw [hm] at h
    exact h
  · rw [hm] at h
    exact hQ a t h

theorem Ends.pure {a : α} {s : σ} (h : Q a s) : Ends (Pure.pure a : Prog σ ε α) s Q E := h

theorem Ends.throw {e : ε} {s : σ} (h : E) :
    Ends (MonadExcept.throw e : Prog σ ε α) s Q E := h

theorem Ends.bind {m : Prog σ ε α} {f : α → Prog σ ε β} {s : σ}
    (h : Ends m s (fun a t => Ends (f a) t R E) E) : Ends (m >>= f) s R E := by
  unfold Ends at h ⊢
  rw [exec_bind]
  rcases hm : m.exec s with ⟨_ | a, t⟩
  · rw [hm] at h
    exact h
  · rw [hm] at h
    exact h

theorem Ends.get_bind {f : σ → Prog σ ε β} {s : σ} (h : Ends (f s) s R E) :
    Ends (get >>= f) s R E := Ends.bind h

theorem Ends.set_bind {f : PUnit → Prog σ ε β} {s t : σ} (h : Ends (f ⟨⟩) t R E) :
    Ends (set t >>= f) s R E := Ends.bind h

theorem Ends.modify {f : σ → σ} {Q : PUnit → σ → Prop} {s : σ} (h : Q ⟨⟩ (f s)) :
    Ends (MonadStateOf.modifyGet fun s => (PUnit.unit, f s) : Prog σ ε PUnit) s Q E := h

theorem Ends.tryCatch {m : Prog σ ε α} {h : ε → Prog σ ε α} {s : σ} (hm : Ends m s Q E)
    (hh : E → ∀ e t, Ends (h e) t Q E) : Ends (MonadExcept.tryCatch m h) s Q E := by
  unfold Ends at hm ⊢
  rw [exec_tryCatch]
  rcases heq : m.exec s with ⟨e | a, t⟩
  · rw [heq] at hm
    exact hh hm e t
  · rw [heq] at hm
    exact hm

end Ends

end Prog

/-! ## Checks folded over a list -/

section Fold

variable {ε α β : Type} {f : β → α → Except ε β} {I : List α → β → Prop} {xs : List α} {b : β}

/-- A fold whose every turn returns and keeps `I` returns, and keeps it. -/
theorem foldlM_ok (h₀ : I [] b) (hstep : ∀ done x rest b, xs = done ++ x :: rest → I done b →
    ∃ b', f b x = .ok b' ∧ I (done ++ [x]) b') : ∃ b', xs.foldlM f b = .ok b' ∧ I xs b' := by
  suffices h : ∀ done rest b, xs = done ++ rest → I done b →
      ∃ b', rest.foldlM f b = .ok b' ∧ I xs b' from h [] xs b rfl h₀
  intro done rest
  induction rest generalizing done with
  | nil =>
    intro b hxs hb
    rw [List.append_nil] at hxs
    subst hxs
    exact ⟨b, rfl, hb⟩
  | cons x rest ih =>
    intro b hxs hb
    obtain ⟨b', hf, hb'⟩ := hstep done x rest b hxs hb
    obtain ⟨c, hc, hI⟩ := ih (done ++ [x]) b' (by rw [hxs, List.append_assoc]; rfl) hb'
    refine ⟨c, ?_, hI⟩
    rw [List.foldlM_cons, hf]
    exact hc

/-- What every returning turn keeps, a returning fold keeps. -/
theorem foldlM_inv {c : β} (h : xs.foldlM f b = .ok c) (h₀ : I [] b)
    (hstep : ∀ done x rest b b', xs = done ++ x :: rest → f b x = .ok b' → I done b →
      I (done ++ [x]) b') : I xs c := by
  suffices hgen : ∀ done rest b, xs = done ++ rest → rest.foldlM f b = .ok c → I done b → I xs c
    from hgen [] xs b rfl h h₀
  intro done rest
  induction rest generalizing done with
  | nil =>
    intro b hxs hf hb
    rw [List.append_nil] at hxs
    subst hxs
    cases hf
    exact hb
  | cons x rest ih =>
    intro b hxs hf hb
    rw [List.foldlM_cons] at hf
    rcases hx : f b x with e | b'
    · rw [hx] at hf
      cases hf
    · rw [hx] at hf
      exact ih (done ++ [x]) b' (by rw [hxs, List.append_assoc]; rfl) hf
        (hstep done x rest b b' hxs hx hb)

end Fold

end CameraLogs.Lib
