namespace BatchJournal

/-!
# Named numbers

Totals and states are shown as a title with the numbers by name.
-/

/-- A title, and numbers by name between braces. -/
def Figures.description (title : String) (figures : List (String × Nat)) : String :=
  title ++ " \x7b "
    ++ String.intercalate ", " (figures.map fun (name, n) => name ++ ": " ++ toString n) ++ " \x7d"

end BatchJournal
