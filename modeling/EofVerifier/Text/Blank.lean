/-! # Blank characters, words and lines

Text is handled as a list of characters.  `isBlank` is Unicode's `White_Space` property;
`pieces` cuts a text at the characters of a class, and `words` and `lines` are its two uses:

* `words` are the maximal runs without a blank, so no word is empty or holds a blank
  (`ne_nil_of_mem_words`);
* `lines` end at a line feed, and a text that ends with one has no empty line after it.

`pieces` is a right fold, so it runs in constant stack on long texts; its two equations
`pieces_nil` and `pieces_cons` give it as a recursion on the text. -/

namespace EofVerifier.Text

/-- The code points with the property `White_Space`, as closed ranges. -/
def blankRanges : List (Nat × Nat) :=
  [(0x0009, 0x000D), (0x0020, 0x0020), (0x0085, 0x0085), (0x00A0, 0x00A0), (0x1680, 0x1680),
   (0x2000, 0x200A), (0x2028, 0x2029), (0x202F, 0x202F), (0x205F, 0x205F), (0x3000, 0x3000)]

/-- Tells whether `c` is white space in the sense of Unicode. -/
def isBlank (c : Char) : Bool :=
  blankRanges.any fun r => r.1 ≤ c.toNat && c.toNat ≤ r.2

/-- Puts `c` in front of the first piece. -/
def consHead (c : Char) : List (List Char) → List (List Char)
  | [] => [[c]]
  | w :: ws => (c :: w) :: ws

/-- The pieces of `cs` between the characters that satisfy `p`, empty pieces included. -/
def pieces (p : Char → Bool) (cs : List Char) : List (List Char) :=
  cs.foldr (fun c ws => if p c then [] :: ws else consHead c ws) [[]]

@[simp] theorem pieces_nil (p : Char → Bool) : pieces p [] = [[]] := rfl

theorem pieces_cons (p : Char → Bool) (c : Char) (cs : List Char) :
    pieces p (c :: cs) = if p c then [] :: pieces p cs else consHead c (pieces p cs) := rfl

/-- The maximal runs of characters that are not blank. -/
def words (cs : List Char) : List (List Char) :=
  (pieces isBlank cs).filter (· ≠ [])

theorem ne_nil_of_mem_words {w cs : List Char} (h : w ∈ words cs) : w ≠ [] := by
  simpa using (List.mem_filter.1 h).2

/-- The lines of `cs`, without the line feeds that end them. -/
def lines (cs : List Char) : List (List Char) :=
  let ps := pieces (· = '\n') cs
  if ps.getLast? = some [] then ps.dropLast else ps

/-- The text without the blanks at its two ends. -/
def trim (cs : List Char) : List Char :=
  ((cs.dropWhile isBlank).reverse.dropWhile isBlank).reverse

end EofVerifier.Text
