namespace BatchJournal

/-!
# A gate

Calls come to a gate and are numbered in order of their coming.  While the gate is shut from a
number on, the calls of that number and of later ones stand before it.  Each time it is shut the
count begins again; a call that stands there keeps its number, so it goes through when the gate is
shut anew from a later number.
-/

/-- Who comes to a gate: a worker of the journal, one that outlasted its journal, or a client. -/
inductive GateCaller where
  /-- A worker of the journal that runs. -/
  | worker (index : Nat)
  /-- A worker that outlasted its journal. -/
  | stray (index : Nat)
  /-- Somebody who goes past the journal. -/
  | client
deriving DecidableEq, Repr

/-- A gate in front of a write path: calls are numbered as they come, and those from `shutFrom` on
    have to wait. -/
structure Gate where
  /-- The number that it is shut from; nothing when it is open. -/
  shutFrom : Option Nat
  /-- How many calls came since it was shut last. -/
  arrived : Nat
  /-- The workers that came here, each with the number of its call. -/
  workers : List (Nat × Nat)
  /-- The numbers of the calls that outlasted their journal. -/
  strays : List Nat
deriving DecidableEq, Repr

namespace Gate

/-- An open gate that nobody came to: no call has a number. -/
def fresh : Gate := ⟨none, 0, [], []⟩

/-- **The gate is shut** from the `n`-th call on, counted from now. -/
def shut (g : Gate) (n : Nat) : Gate := { g with shutFrom := some n, arrived := 0 }

/-- The gate is opened: `shutFrom` nothing. -/
def opened (g : Gate) : Gate := { g with shutFrom := none }

/-- **A call of this number goes through:** the gate is open or shut from a later one. -/
def admits (g : Gate) (number : Nat) : Bool := g.shutFrom.all (number < ·)

/-- As many calls came as the gate is shut from: somebody stands before it. -/
def reached (g : Gate) : Bool := g.shutFrom.any (· ≤ g.arrived)

/-- The number of the call that a worker came with, if it came. -/
def numberOf? (g : Gate) (w : Nat) : Option Nat := g.workers.lookup w

/-- **A worker comes to the gate,** and its call gets the next number. -/
def enter (g : Gate) (w : Nat) : Gate :=
  { g with arrived := g.arrived + 1, workers := (w, g.arrived + 1) :: g.workers }

/-- **A caller goes through the gate.** A `client` comes and goes in one. -/
def leave (g : Gate) : GateCaller → Gate
  | .worker w => { g with workers := g.workers.filter (·.1 ≠ w) }
  | .stray i => { g with strays := g.strays.eraseIdx i }
  | .client => { g with arrived := g.arrived + 1 }

/-- The first stray call that the gate `admits`. -/
def freeStray? (g : Gate) : Option Nat := g.strays.findIdx? g.admits

/-- The journal ends: the calls of its workers, so many as there are, become `strays`. -/
def outlast (g : Gate) (workers : Nat) : Gate :=
  { g with workers := [], strays := g.strays ++ (List.range workers).filterMap g.numberOf? }

end Gate

end BatchJournal
