import Lineage.Text.LowerCase

namespace Lineage.Text

/-- Whether a character is a small letter of ASCII. -/
def isSmall (c : Char) : Bool :=
  'a' ≤ c && c ≤ 'z'

/-- Whether a character is a capital letter of ASCII. -/
def isCapital (c : Char) : Bool :=
  'A' ≤ c && c ≤ 'Z'

/-- Puts an underscore before each word that starts with a capital letter: one that follows a small
letter or a digit, or one between another capital and a small letter. -/
def divideWords : List Char → List Char
  | a :: b :: rest =>
    let starts := isCapital b && (isSmall a || a.isDigit || (isCapital a && rest.head?.any isSmall))
    if starts then a :: '_' :: divideWords (b :: rest) else a :: divideWords (b :: rest)
  | cs => cs

/-- A name in small letters with underscores between its words. -/
def snakeCase (name : String) : String :=
  lower (String.ofList ((divideWords name.toList).map fun c => if c = '-' then '_' else c))

end Lineage.Text
