/-!
# Lines

A line ends at a line feed, which is not part of it, and neither is one carriage return right before
the line feed. A text that ends in a line feed has no empty line after it.
-/

namespace Census
namespace Text

def lines : List Char → List (List Char)
  | [] => []
  | '\n' :: rest => [] :: lines rest
  | '\r' :: '\n' :: rest => [] :: lines rest
  | c :: rest =>
    match lines rest with
    | [] => [[c]]
    | line :: more => (c :: line) :: more

@[simp] theorem lines_nil : lines [] = [] := rfl

example : lines "a\r\n\nb\r".toList = [['a'], [], ['b', '\r']] := by decide +kernel

end Text
end Census
