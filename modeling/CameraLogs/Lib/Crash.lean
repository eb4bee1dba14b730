import CameraLogs.Lib.Program

/-!
# Programs that may be killed between two durable writes

A durable write is one that survives the process: a replaced file, a removed
file. Everything else a program does is lost with it, so the only states another
process can find are the ones between two durable writes. `Durable σ ε α` is a
program over a stored state `σ` that carries the number of durable writes still
to come before the process is killed; running it with every such number visits
every state a crash can leave behind.

`CrashTriple k P m Q C X` has four parts: from `P`, a normal return satisfies
`Q`, a kill leaves a state in `C`, and an error `X`. The proposition `k` says
whether a kill may happen at all, so one proof serves both for crash safety
(`k := True`) and for what an undisturbed run achieves (`k := False`).
-/

namespace CameraLogs.Lib

/-- A stored state, and how many durable writes take place before the process is
killed; `none` when it never is. -/
structure Disk (σ : Type) where
  state : σ
  left : Option Nat

/-- Why a durable program did not return: the process was killed, or it raised. -/
inductive Stop (ε : Type)
  | killed
  | raised (e : ε)

/-- A program over a stored state that may be killed between durable writes. -/
abbrev Durable (σ ε : Type) := Prog (Disk σ) (Stop ε)

variable {σ ε α β : Type}

/-- One durable write. -/
def durable (f : σ → σ) : Durable σ ε PUnit := do
  let disk ← get
  match disk.left with
  | some 0 => throw .killed
  | some (n + 1) => set { state := f disk.state, left := some n : Disk σ }
  | none => set { state := f disk.state, left := none : Disk σ }

/-- Read the stored state. -/
def peek : Durable σ ε σ := do
  let disk ← get
  return disk.state

/-- A check that writes nothing. -/
def attempt (r : Except ε α) : Durable σ ε α :=
  match r with
  | .ok a => pure a
  | .error e => throw (.raised e)

/-- From `P`: a normal return in `Q`, a kill in `C`, an error in `X`. -/
def CrashTriple (k : Prop) (P : σ → Prop) (m : Durable σ ε α) (Q : α → σ → Prop)
    (C : σ → Prop) (X : ε → σ → Prop) : Prop :=
  Prog.Triple (fun d => P d.state ∧ (k ∨ d.left = none)) m
    (fun a d => Q a d.state ∧ (k ∨ d.left = none))
    (fun e d => match e with
      | .killed => k ∧ C d.state
      | .raised e => X e d.state)

namespace CrashTriple

variable {k : Prop} {P P' : σ → Prop} {Q Q' : α → σ → Prop} {R : β → σ → Prop}
  {C C' : σ → Prop} {X X' : ε → σ → Prop}

theorem conseq {m : Durable σ ε α} (h : CrashTriple k P m Q C X) (hP : ∀ s, P' s → P s)
    (hQ : ∀ a s, Q a s → Q' a s) (hC : ∀ s, C s → C' s) (hX : ∀ e s, X e s → X' e s) :
    CrashTriple k P' m Q' C' X' := by
  refine Prog.Triple.conseq h (fun _ hd => ⟨hP _ hd.1, hd.2⟩)
    (fun _ _ hd => ⟨hQ _ _ hd.1, hd.2⟩) ?_
  rintro (_ | e) _ hd
  · exact ⟨hd.1, hC _ hd.2⟩
  · exact hX _ _ hd

theorem bind {m : Durable σ ε α} {f : α → Durable σ ε β} (hm : CrashTriple k P m Q C X)
    (hf : ∀ a, CrashTriple k (Q a) (f a) R C X) : CrashTriple k P (m >>= f) R C X :=
  Prog.Triple.bind hm hf

/-- Reading the stored state: the continuation knows which state it was. -/
theorem peek_bind {f : σ → Durable σ ε β}
    (h : ∀ s, P s → CrashTriple k (· = s) (f s) R C X) : CrashTriple k P (peek >>= f) R C X := by
  intro d hd
  exact h d.state hd.1 d ⟨rfl, hd.2⟩

/-- A kill before the write leaves the state it found, one after it the state it
wrote: the first must be in `C`, and the second is the business of what follows. -/
theorem durable {f : σ → σ} (hC : ∀ s, P s → C s) {Q : PUnit → σ → Prop}
    (hQ : ∀ s, P s → Q ⟨⟩ (f s)) :
    CrashTriple k P (Lib.durable f : Durable σ ε PUnit) Q C X := by
  rintro ⟨s, left⟩ ⟨hs, hk⟩
  rcases left with _ | _ | n
  · exact ⟨hQ s hs, Or.inr rfl⟩
  · rcases hk with hk | hk
    · exact ⟨hk, hC s hs⟩
    · exact absurd hk (by simp)
  · rcases hk with hk | hk
    · exact ⟨hQ s hs, Or.inl hk⟩
    · exact absurd hk (by simp)

/-- A write to a known state. -/
theorem durable_eq {f : σ → σ} {s : σ} (hC : C s) :
    CrashTriple k (· = s) (Lib.durable f : Durable σ ε PUnit) (fun _ t => t = f s) C X :=
  CrashTriple.durable (fun _ hs => hs ▸ hC) fun _ hs => hs ▸ rfl

theorem attempt {r : Except ε α} (hok : ∀ a s, r = .ok a → P s → Q a s)
    (herr : ∀ e s, r = .error e → P s → X e s) :
    CrashTriple k P (Lib.attempt r : Durable σ ε α) Q C X := by
  intro d hd
  cases r with
  | ok a => exact ⟨hok a _ rfl hd.1, hd.2⟩
  | error e => exact herr e _ rfl hd.1

/-- A check whose outcome is known: it returns `v` exactly when `c` holds. -/
theorem attempt_bind {r : Except ε α} {f : α → Durable σ ε β} {c : Prop} {v : α}
    (h : ∀ a, r = .ok a ↔ c ∧ a = v) (herr : ¬ c → ∀ e s, P s → X e s)
    (hok : c → CrashTriple k P (f v) R C X) : CrashTriple k P (Lib.attempt r >>= f) R C X := by
  refine CrashTriple.bind (Q := fun a s => (c ∧ a = v) ∧ P s) ?_ fun a => ?_
  · refine CrashTriple.attempt (fun a s hr hs => ⟨(h a).mp hr, hs⟩) ?_
    intro e s hr hs
    refine herr (fun hc => ?_) e s hs
    have hret := (h v).mpr ⟨hc, rfl⟩
    rw [hr] at hret
    cases hret
  · rintro disk ⟨⟨⟨hc, rfl⟩, hs⟩, hk⟩
    exact hok hc disk ⟨hs, hk⟩

/-- The loop rule: `I done` holds when the items `done` have been handled. -/
theorem forM {I : List α → σ → Prop} {f : α → Durable σ ε PUnit} {xs : List α}
    (hstep : ∀ done x rest, xs = done ++ x :: rest →
      CrashTriple k (I done) (f x) (fun _ => I (done ++ [x])) C X) :
    CrashTriple k (I []) (xs.forM f) (fun _ => I xs) C X :=
  Prog.Triple.forM (I := fun done (d : Disk σ) => I done d.state ∧ (k ∨ d.left = none)) hstep

/-- What a run that is never killed does. -/
theorem undisturbed {m : Durable σ ε α} (h : CrashTriple False P m Q C X) {s : σ} (hP : P s) :
    (∃ a t, m.exec ⟨s, none⟩ = (.ok a, ⟨t, none⟩) ∧ Q a t) ∨
      ∃ e t, m.exec ⟨s, none⟩ = (.error (.raised e), t) ∧ X e t.state := by
  have hs := h ⟨s, none⟩ ⟨hP, Or.inr rfl⟩
  rcases he : m.exec ⟨s, none⟩ with ⟨(_ | e) | a, t⟩ <;> rw [he] at hs
  · exact hs.1.elim
  · exact Or.inr ⟨e, t, rfl, hs⟩
  · obtain ⟨hQ, hF | hl⟩ := hs
    · exact hF.elim
    · obtain ⟨t, left⟩ := t
      subst hl
      exact Or.inl ⟨a, t, rfl, hQ⟩

/-- Whatever way a run ends, it ends in `C` when every exit of the triple is there. -/
theorem final {m : Durable σ ε α} (h : CrashTriple True P m (fun _ => C) C (fun _ => C))
    {s : σ} (hP : P s) (left : Option Nat) : C (m.exec ⟨s, left⟩).2.state := by
  have hs := h ⟨s, left⟩ ⟨hP, Or.inl trivial⟩
  rcases he : m.exec ⟨s, left⟩ with ⟨(_ | e) | a, t⟩ <;> rw [he] at hs
  · exact hs.2
  · exact hs
  · exact hs.1

end CrashTriple

end CameraLogs.Lib
