namespace Lineage.Text

/-- The characters that end a line. A carriage return and a line feed together end one line. -/
def endsLine (c : Char) : Bool :=
  let code := c.toNat
  (0x0A ≤ code && code ≤ 0x0D) || (0x1C ≤ code && code ≤ 0x1E) || code == 0x85
    || code == 0x2028 || code == 0x2029

/-- The lines of a text without their ends; `current` is the reversed start of the first line. A
text that ends with the end of a line has no empty line after it. -/
def linesFrom (current : List Char) : List Char → List (List Char)
  | [] => if current.isEmpty then [] else [current.reverse]
  | '\r' :: '\n' :: rest => current.reverse :: linesFrom [] rest
  | c :: rest =>
    if endsLine c then current.reverse :: linesFrom [] rest else linesFrom (c :: current) rest

/-- The lines of a text. -/
def lines (cs : List Char) : List (List Char) :=
  linesFrom [] cs

end Lineage.Text
