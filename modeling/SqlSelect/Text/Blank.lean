/-!
# Blank characters and trimming

The blank characters are the twenty-five code points with the Unicode property
White_Space. Trimming removes the blanks at both ends of a text and nothing
between them.
-/

namespace SqlSelect.Text

/-- The code points with the property White_Space, in increasing order. -/
def blankCodes : List Nat :=
  [0x09, 0x0A, 0x0B, 0x0C, 0x0D, 0x20, 0x85, 0xA0, 0x1680,
    0x2000, 0x2001, 0x2002, 0x2003, 0x2004, 0x2005, 0x2006, 0x2007, 0x2008, 0x2009, 0x200A,
    0x2028, 0x2029, 0x202F, 0x205F, 0x3000]

def isBlank (c : Char) : Bool :=
  blankCodes.contains c.toNat

def trimLeft (cs : List Char) : List Char :=
  cs.dropWhile isBlank

def trimRight (cs : List Char) : List Char :=
  (trimLeft cs.reverse).reverse

def trim (s : String) : String :=
  String.ofList (trimRight (trimLeft s.toList))

@[simp] theorem toList_trim (s : String) :
    (trim s).toList = trimRight (trimLeft s.toList) :=
  String.toList_ofList

end SqlSelect.Text
