import BatchJournal.Journal.Once
import BatchJournal.Rehearsal.Basic

namespace BatchJournal

/-!
# Several journals and the one that is found

Journals are made under names, each over a store in memory, and one of them may be installed as
the journal that every part of a program finds.
-/

/-- Journals by name, and the one that is found: `shared` is set once. -/
structure Installation where
  /-- The name of the journal that is installed. -/
  shared : Once String
  /-- The journals by name. -/
  journals : List (String × Rehearsal)

namespace Installation

/-- No journal was made yet, and none is installed. -/
def start : Installation := ⟨.empty, []⟩

/-- Makes a journal with the `standard` settings; a former one of its name gives way. -/
def make (p : Installation) (name : String) : Installation :=
  { p with
    journals := (name, (Rehearsal.fresh .standard .standard (.memory .empty)).build.2) :: p.journals }

/-- **Installs a journal;** where there is one already the name is handed back as an `error`. -/
def install (p : Installation) (name : String) : Except String Installation :=
  match p.shared.install name with
  | .ok shared => .ok { p with shared }
  | .error rejected => .error rejected

/-- The name of the journal that everybody finds, if one is installed. -/
def found (p : Installation) : Option String := p.shared.installed

/-- A batch of no mutations is submitted to a journal. -/
def submitTo (r : Rehearsal) : Rehearsal :=
  match r.journal? with
  | some g => (r.submit g [] .epoch).2
  | none => r

/-- A batch of no mutations is submitted to the journal that is `found`; `none` where there is
    none. -/
def submit (p : Installation) : Option Installation :=
  p.found.map fun name =>
    { p with journals := p.journals.map fun (n, r) => (n, if n = name then submitTo r else r) }

/-- How many batches the journal of a name stores, if it runs. -/
def pending (p : Installation) (name : String) : Option Nat :=
  ((p.journals.lookup name).bind (·.journal?)).map (·.pending)

end Installation

end BatchJournal
