import Census.Json.Fault
import Mathlib.Data.List.TakeWhile

/-!
# The grammar of JSON texts

What a JSON text is, said without regard to how one is read: strings and numbers by their
characters, and values by how they are put together from other values. Nothing limits how deep
values nest or how large numbers are, and a code in a string may be any four hexadecimal digits.

A part of a text is known together with the raw texts that it is made of: an array with its items,
and an object with the names and the values of its members, as they are written.
-/

namespace Census
namespace Json
namespace Grammar

/-- What may stand between the parts of a text. -/
def Gap (s : List Char) : Prop := ∀ c ∈ s, c ∈ [' ', '\t', '\n', '\r']

instance (s : List Char) : Decidable (Gap s) := List.decidableBAll _ s

/-! ## Strings -/

/-- What the letters behind a backslash stand for. -/
def escapes : List (Char × Char) :=
  [('"', '"'), ('\\', '\\'), ('/', '/'), ('b', Char.ofNat 0x8), ('f', Char.ofNat 0xC),
   ('n', Char.ofNat 0xA), ('r', Char.ofNat 0xD), ('t', Char.ofNat 0x9)]

/-- The digit `c` stands for `n`. -/
def IsHex (c : Char) (n : Nat) : Prop :=
  "0123456789abcdef".toList[n]? = some c ∨ "0123456789ABCDEF".toList[n]? = some c

instance (c : Char) (n : Nat) : Decidable (IsHex c n) := inferInstanceAs (Decidable (_ ∨ _))

/-- Four digits that stand for `n`. -/
def IsCode (s : List Char) (n : Nat) : Prop :=
  ∃ a b c d i j k l, s = [a, b, c, d] ∧ IsHex a i ∧ IsHex b j ∧ IsHex c k ∧ IsHex d l
    ∧ n = i * 0x1000 + j * 0x100 + k * 0x10 + l

/-- What stands between the quotes of a string. -/
inductive Inside : List Char → Prop
  | nothing : Inside []
  | plain {c : Char} {s : List Char} (quote : c ≠ '"') (backslash : c ≠ '\\')
      (control : 0x20 ≤ c.toNat) (rest : Inside s) : Inside (c :: s)
  | escape {c d : Char} {s : List Char} (letter : (c, d) ∈ escapes) (rest : Inside s) :
      Inside ('\\' :: c :: s)
  | code {n : Nat} {u s : List Char} (digits : IsCode u n) (rest : Inside s) :
      Inside ('\\' :: 'u' :: (u ++ s))

/-! ## Numbers -/

def Digits (s : List Char) : Prop := s ≠ [] ∧ ∀ c ∈ s, c.isDigit = true

instance (s : List Char) : Decidable (Digits s) :=
  @instDecidableAnd _ _ _ (List.decidableBAll _ s)

/-- The digits before a point. -/
inductive Whole : List Char → Prop
  | zero : Whole ['0']
  | digits {s : List Char} (digits : Digits s) (lead : s.head? ≠ some '0') : Whole s

/-- A point with digits, or nothing. -/
inductive Fraction : List Char → Prop
  | nothing : Fraction []
  | digits {s : List Char} (digits : Digits s) : Fraction ('.' :: s)

/-- A power of ten, or nothing. -/
inductive Exponent : List Char → Prop
  | nothing : Exponent []
  | digits {e : Char} {sign s : List Char} (letter : e = 'e' ∨ e = 'E')
      (signed : sign = [] ∨ sign = ['+'] ∨ sign = ['-']) (digits : Digits s) :
      Exponent (e :: (sign ++ s))

/-- A number as it is written. -/
def Number (s : List Char) : Prop :=
  ∃ sign w f e, (sign = [] ∨ sign = ['-']) ∧ Whole w ∧ Fraction f ∧ Exponent e
    ∧ s = sign ++ (w ++ (f ++ e))

/-! ## Values -/

/-- A name between its quotes, and the colon behind it. -/
def Key (name s : List Char) : Prop :=
  ∃ g h, Gap g ∧ Gap h ∧ Inside name ∧ s = g ++ '"' :: (name ++ '"' :: (h ++ [':']))

/-- The parts of a text, with the raw texts that they are made of. -/
inductive Part
  | value
  | items (raws : List (List Char))
  | members (raws : List (List Char × List Char))

/-- A text is a part of a certain kind. -/
inductive Derives : Part → List Char → Prop
  | word {w : List Char} (word : w ∈ ["null".toList, "true".toList, "false".toList]) :
      Derives .value w
  | number {s : List Char} (number : Number s) : Derives .value s
  | string {s : List Char} (inside : Inside s) : Derives .value ('"' :: (s ++ ['"']))
  | array {vs : List (List Char)} {s : List Char} (items : Derives (.items vs) s) :
      Derives .value ('[' :: (s ++ [']']))
  | object {ms : List (List Char × List Char)} {s : List Char} (members : Derives (.members ms) s) :
      Derives .value ('\x7b' :: (s ++ ['\x7d']))
  | noItem {g : List Char} (gap : Gap g) : Derives (.items []) g
  | item {g v h : List Char} (before : Gap g) (value : Derives .value v) (after : Gap h) :
      Derives (.items [v]) (g ++ (v ++ h))
  | items {g v h s w : List Char} {vs : List (List Char)} (before : Gap g)
      (value : Derives .value v) (after : Gap h) (rest : Derives (.items (w :: vs)) s) :
      Derives (.items (v :: w :: vs)) (g ++ (v ++ (h ++ ',' :: s)))
  | noMember {g : List Char} (gap : Gap g) : Derives (.members []) g
  | member {n k g v h : List Char} (key : Key n k) (before : Gap g) (value : Derives .value v)
      (after : Gap h) : Derives (.members [(n, v)]) (k ++ (g ++ (v ++ h)))
  | members {n k g v h s : List Char} {m : List Char × List Char}
      {ms : List (List Char × List Char)} (key : Key n k) (before : Gap g)
      (value : Derives .value v) (after : Gap h) (rest : Derives (.members (m :: ms)) s) :
      Derives (.members ((n, v) :: m :: ms)) (k ++ (g ++ (v ++ (h ++ ',' :: s))))

/-- A text of one value and nothing else. -/
def Text (value s : List Char) : Prop :=
  ∃ g h, Gap g ∧ Gap h ∧ Derives .value value ∧ s = g ++ (value ++ h)

/-! ## Gaps -/

theorem isGap_iff {c : Char} : isGap c = true ↔ c ∈ [' ', '\t', '\n', '\r'] := by
  simp [isGap, or_assoc]

theorem Gap.append {g h : List Char} (before : Gap g) (after : Gap h) : Gap (g ++ h) :=
  fun c hc => (List.mem_append.mp hc).elim (before c) (after c)

theorem skipGap_append {g : List Char} (gap : Gap g) (s : List Char) :
    skipGap (g ++ s) = skipGap s := by
  have all : ∀ c ∈ g, isGap c = true := fun c hc => isGap_iff.mpr (gap c hc)
  rw [skipGap, List.dropWhile_append_of_pos all, skipGap]

theorem skipGap_cons {c : Char} (no_gap : isGap c = false) (s : List Char) :
    skipGap (c :: s) = c :: s := by
  rw [skipGap, List.dropWhile_cons_of_neg (by rw [no_gap]; exact Bool.false_ne_true)]

theorem exists_gap (s : List Char) : ∃ g, Gap g ∧ s = g ++ skipGap s := by
  refine ⟨s.takeWhile isGap, fun c hc => isGap_iff.mp (List.mem_takeWhile_imp hc), ?_⟩
  exact List.takeWhile_append_dropWhile.symm

theorem skipGap_eq_nil_iff {s : List Char} : skipGap s = [] ↔ Gap s := by
  rw [skipGap, List.dropWhile_eq_nil_iff]
  exact forall₂_congr fun _ _ => isGap_iff

end Grammar
end Json
end Census
