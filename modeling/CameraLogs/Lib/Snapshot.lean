import Mathlib.Tactic.Basic

/-!
# Documents under snapshot isolation

A transaction reads the documents as they were when it began. When it commits, a document
that it writes must not have been written since, else the transaction is aborted: the first
to commit wins. `Versioned` counts the writes of a document; `Seen` says that a version was
read from the document as it is now or as it was earlier. A transaction whose documents are
at the version it has read has therefore read what is there: `Seen.current`.
-/

namespace CameraLogs.Lib

structure Versioned (α : Type) where
  value : α
  version : Nat

namespace Versioned

variable {α : Type} {seen doc : Versioned α} {value : α}

def write (value : α) (doc : Versioned α) : Versioned α :=
  { value, version := doc.version + 1 }

@[simp] theorem write_value : (write value doc).value = value := rfl
@[simp] theorem write_version : (write value doc).version = doc.version + 1 := rfl

/-- `seen` was read from `doc` at some time. -/
structure Seen (seen doc : Versioned α) : Prop where
  le : seen.version ≤ doc.version
  value : seen.version = doc.version → seen.value = doc.value

theorem seen_refl (doc : Versioned α) : Seen doc doc := ⟨Nat.le_refl _, fun _ => rfl⟩

theorem Seen.write (h : Seen seen doc) : Seen seen (doc.write value) := by
  have hlt : seen.version < doc.version + 1 := Nat.lt_succ_of_le h.le
  exact ⟨Nat.le_of_lt hlt, fun he => absurd he (Nat.ne_of_lt hlt)⟩

/-- What has not been written since it was read is as it was read. -/
theorem Seen.current (h : Seen seen doc) (hv : seen.version = doc.version) : seen = doc := by
  cases seen
  cases doc
  cases hv
  exact congrArg (Versioned.mk · _) (h.value rfl)

end Versioned

end CameraLogs.Lib
