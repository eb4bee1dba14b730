import Mathlib.Data.List.Basic
import Mathlib.Tactic.Basic

/-!
# Generators that may raise

A generator yields values as it goes, and they stay yielded when it raises later. `Generated ω ε α`
is one that has been run: what it has yielded, and the value or the error it has ended with.

`forM_ended` says how a loop ends: behind all of its items, or in the first that raises.
-/

namespace CameraLogs.Lib

structure Generated (ω ε α : Type) where
  yielded : List ω
  ended : Except ε α

namespace Generated

variable {ω ε α β γ : Type}

instance : Monad (Generated ω ε) where
  pure a := ⟨[], .ok a⟩
  bind g f :=
    match g.ended with
    | .error e => ⟨g.yielded, .error e⟩
    | .ok a => ⟨g.yielded ++ (f a).yielded, (f a).ended⟩

/-- Yield what a function answers, or raise. -/
def ofExcept (r : Except ε (List ω × α)) : Generated ω ε α :=
  match r with
  | .error e => ⟨[], .error e⟩
  | .ok (xs, a) => ⟨xs, .ok a⟩

theorem bind_ok (xs : List ω) (a : α) (f : α → Generated ω ε β) :
    ((⟨xs, .ok a⟩ : Generated ω ε α) >>= f) = ⟨xs ++ (f a).yielded, (f a).ended⟩ := rfl

theorem bind_error (xs : List ω) (e : ε) (f : α → Generated ω ε β) :
    ((⟨xs, .error e⟩ : Generated ω ε α) >>= f) = ⟨xs, .error e⟩ := rfl

theorem bind_assoc' (g : Generated ω ε α) (f : α → Generated ω ε β) (h : β → Generated ω ε γ) :
    g >>= f >>= h = g >>= fun a => f a >>= h := by
  obtain ⟨xs, r⟩ := g
  cases r with
  | error e => rfl
  | ok a =>
    rw [bind_ok, bind_ok]
    cases hf : f a with
    | mk ys r' =>
      cases r' with
      | error e => rfl
      | ok b =>
        rw [bind_ok, bind_ok]
        show (⟨xs ++ ys ++ (h b).yielded, (h b).ended⟩ : Generated ω ε γ) = ⟨xs ++ (ys ++ _), _⟩
        rw [List.append_assoc]

instance : LawfulMonad (Generated ω ε) := LawfulMonad.mk' _
  (fun ⟨xs, r⟩ => by
    cases r with
    | error e => rfl
    | ok a => exact congrArg (Generated.mk · (.ok a)) (List.append_nil xs))
  (fun a f => by
    show (⟨[] ++ (f a).yielded, (f a).ended⟩ : Generated ω ε _) = f a
    rw [List.nil_append])
  bind_assoc'

/-- How a loop ends. -/
theorem forM_ended (f : α → Generated ω ε PUnit) (xs : List α) : ∃ done rest, xs = done ++ rest ∧
    (∀ x ∈ done, (f x).ended = .ok ⟨⟩) ∧
    ((rest = [] ∧ (xs.forM f).ended = .ok ⟨⟩ ∧
        (xs.forM f).yielded = done.flatMap fun x => (f x).yielded) ∨
      ∃ x more e, rest = x :: more ∧ (f x).ended = .error e ∧ (xs.forM f).ended = .error e ∧
        (xs.forM f).yielded = (done.flatMap fun x => (f x).yielded) ++ (f x).yielded) := by
  induction xs with
  | nil => exact ⟨[], [], rfl, nofun, Or.inl ⟨rfl, rfl, rfl⟩⟩
  | cons x xs ih =>
    have hcons : (x :: xs).forM f = f x >>= fun _ => xs.forM f := rfl
    rw [hcons]
    cases hx : f x with
    | mk ys r =>
      cases r with
      | error e =>
        refine ⟨[], x :: xs, rfl, nofun, Or.inr ⟨x, xs, e, rfl, by rw [hx], rfl, ?_⟩⟩
        rw [hx]
        rfl
      | ok u =>
        obtain ⟨done, rest, hsplit, hdone, hend⟩ := ih
        refine ⟨x :: done, rest, by rw [hsplit]; rfl, ?_, ?_⟩
        · intro y hy
          obtain rfl | hy := List.mem_cons.mp hy
          · rw [hx]
          · exact hdone y hy
        · rw [bind_ok, List.flatMap_cons, hx]
          rcases hend with ⟨hrest, hended, hyielded⟩ | ⟨z, more, e, hrest, hz, hended, hyielded⟩
          · exact Or.inl ⟨hrest, hended, by rw [hyielded]⟩
          · exact Or.inr ⟨z, more, e, hrest, hz, hended, by rw [hyielded, List.append_assoc]⟩

end Generated

end CameraLogs.Lib
