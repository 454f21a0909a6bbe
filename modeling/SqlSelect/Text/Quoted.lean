/-!
# String literals

A string literal stands between single quotes, and a single quote inside it is
written twice.
-/

namespace SqlSelect.Text

def doubleQuotes (cs : List Char) : List Char :=
  cs.flatMap fun c ↦ if c = '\x27' then [c, c] else [c]

def quoted (s : String) : String :=
  "'" ++ String.ofList (doubleQuotes s.toList) ++ "'"

@[simp] theorem doubleQuotes_nil : doubleQuotes [] = [] :=
  rfl

@[simp] theorem doubleQuotes_append (cs ds : List Char) :
    doubleQuotes (cs ++ ds) = doubleQuotes cs ++ doubleQuotes ds :=
  List.flatMap_append

theorem toList_quoted (s : String) :
    (quoted s).toList = '\x27' :: (doubleQuotes s.toList ++ ['\x27']) := by
  simp [quoted]

end SqlSelect.Text
