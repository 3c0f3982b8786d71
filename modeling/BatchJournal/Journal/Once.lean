namespace BatchJournal

/-!
# A place filled once

A process may keep one journal where every part of it can find it.  The place is filled at most
once; who comes later gets back what they brought.
-/

/-- A place that is empty or filled for good. -/
structure Once (α : Type) where
  /-- What was installed. -/
  installed : Option α
deriving DecidableEq, Repr

namespace Once

variable {α : Type}

/-- Nothing was installed. -/
def empty : Once α := ⟨none⟩

/-- **Installs a value;** where there is one already the new value is handed back. -/
def install (o : Once α) (a : α) : Except α (Once α) :=
  match o.installed with
  | none => .ok ⟨some a⟩
  | some _ => .error a

end Once

end BatchJournal
