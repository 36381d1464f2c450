import Census.Json.Fault
import Census.Text.Surrogate

/-!
# JSON strings

A string is written between quotes, with escapes for quotes, backslashes and control characters, and
is read with every escape that the format has. `quoted_encode` says that reading a written string
gives it back and leaves the text after it alone.
-/

namespace Census
namespace Json
namespace Quoted

/-- The lower-case hexadecimal digit of a number below 16. -/
def hexDigit (n : Nat) : Char := Char.ofNat (if n < 10 then 0x30 + n else 0x57 + n)

/-- One character of a string as it is written. -/
def encodeChar (c : Char) : List Char :=
  if c = '"' then ['\\', '"']
  else if c = '\\' then ['\\', '\\']
  else if c.toNat = 0x8 then ['\\', 'b']
  else if c.toNat = 0x9 then ['\\', 't']
  else if c.toNat = 0xA then ['\\', 'n']
  else if c.toNat = 0xC then ['\\', 'f']
  else if c.toNat = 0xD then ['\\', 'r']
  else if c.toNat < 0x20 then ['\\', 'u', '0', '0', hexDigit (c.toNat / 16), hexDigit (c.toNat % 16)]
  else [c]

/-- A string as it is written, quotes included. -/
def encode (s : List Char) : List Char := '"' :: (s.flatMap encodeChar ++ ['"'])

def hexValue? (c : Char) : Option Nat :=
  let n := c.toNat
  if 0x30 ≤ n ∧ n ≤ 0x39 then some (n - 0x30)
  else if 0x41 ≤ n ∧ n ≤ 0x46 then some (n - 0x37)
  else if 0x61 ≤ n ∧ n ≤ 0x66 then some (n - 0x57)
  else none

/-- The number of four hexadecimal digits. -/
def unit? (a b c d : Char) : Option Nat := do
  some ((((← hexValue? a) * 16 + (← hexValue? b)) * 16 + (← hexValue? c)) * 16 + (← hexValue? d))

/-- Where four hexadecimal digits are missing, four bytes are passed over, whatever they are. -/
def unitFault (s : List Char) : Fault :=
  if byteCount s < 4 then .atEnd .endInString else ⟨.badEscape, byteCount s - 4⟩

def readUnit (s : List Char) : Read Nat :=
  match s with
  | a :: b :: c :: d :: rest =>
    match unit? a b c d with
    | some n => .ok (n, rest)
    | none => .error (unitFault s)
  | _ => .error (unitFault s)

/-- The character that a letter after a backslash stands for. -/
def shortEscape? (c : Char) : Option Char :=
  if c = '"' ∨ c = '\\' ∨ c = '/' then some c
  else if c = 'b' then some (Char.ofNat 0x8)
  else if c = 't' then some (Char.ofNat 0x9)
  else if c = 'n' then some (Char.ofNat 0xA)
  else if c = 'f' then some (Char.ofNat 0xC)
  else if c = 'r' then some (Char.ofNat 0xD)
  else none

/-- The second half of a pair whose first half was `high`. -/
def readPartner (high : Nat) (s : List Char) : Read Char :=
  match s with
  | [] => .error (.atEnd .endInString)
  | '\\' :: [] => .error (.atEnd .endInString)
  | '\\' :: 'u' :: rest =>
    match readUnit rest with
    | .error f => .error f
    | .ok (low, rest) =>
      if Text.isLowSurrogate low then .ok (Text.paired high low, rest)
      else .error (.before .loneSurrogate rest)
  | '\\' :: rest => .error (.within .brokenPair rest)
  | s => .error (.within .brokenPair s)

/-- What follows a backslash. -/
def readEscape : List Char → Read Char
  | [] => .error (.atEnd .endInString)
  | c :: rest =>
    if c = 'u' then
      match readUnit rest with
      | .error f => .error f
      | .ok (n, rest) =>
        if Text.isLowSurrogate n then .error (.before .loneSurrogate rest)
        else if Text.isHighSurrogate n then readPartner n rest
        else .ok (Char.ofNat n, rest)
    else
      match shortEscape? c with
      | some d => .ok (d, rest)
      | none => .error (.within .badEscape (c :: rest))

/-- The next character of a string, or nothing at the closing quote. -/
def readChar : List Char → Read (Option Char)
  | [] => .error (.atEnd .endInString)
  | c :: rest =>
    if c = '"' then .ok (none, rest)
    else if c = '\\' then
      match readEscape rest with
      | .error f => .error f
      | .ok (d, rest) => .ok (some d, rest)
    else if c.toNat < 0x20 then .error (.before .controlCharacter rest)
    else .ok (some c, rest)

theorem readUnit_length {s rest : List Char} {n : Nat} (h : readUnit s = .ok (n, rest)) :
    rest.length < s.length := by
  unfold readUnit at h
  split at h
  · split at h
    · simp only [Except.ok.injEq, Prod.mk.injEq] at h
      obtain ⟨-, rfl⟩ := h
      simp only [List.length_cons]
      omega
    · simp at h
  · simp at h

theorem readPartner_length {high : Nat} {s rest : List Char} {c : Char}
    (h : readPartner high s = .ok (c, rest)) : rest.length < s.length := by
  unfold readPartner at h
  split at h <;> try simp at h
  split at h
  · simp at h
  · rename_i hu
    have := readUnit_length hu
    split at h <;> simp_all
    omega

theorem readEscape_length {s rest : List Char} {c : Char} (h : readEscape s = .ok (c, rest)) :
    rest.length < s.length := by
  unfold readEscape at h
  split at h
  · simp at h
  · split at h
    · split at h
      · simp at h
      · rename_i hu
        have hu := readUnit_length hu
        split at h
        · simp at h
        · split at h
          · have := readPartner_length h
            simp only [List.length_cons]
            omega
          · simp only [Except.ok.injEq, Prod.mk.injEq] at h
            obtain ⟨-, rfl⟩ := h
            simp only [List.length_cons]
            omega
    · split at h
      · simp only [Except.ok.injEq, Prod.mk.injEq] at h
        obtain ⟨-, rfl⟩ := h
        simp
      · simp at h

theorem readChar_length {s rest : List Char} {c : Option Char} (h : readChar s = .ok (c, rest)) :
    rest.length < s.length := by
  unfold readChar at h
  split at h
  · simp at h
  · split at h
    · simp only [Except.ok.injEq, Prod.mk.injEq] at h
      obtain ⟨-, rfl⟩ := h
      simp
    · split at h
      · split at h
        · simp at h
        · rename_i he
          have := readEscape_length he
          simp only [Except.ok.injEq, Prod.mk.injEq] at h
          obtain ⟨-, rfl⟩ := h
          simp only [List.length_cons]
          omega
      · split at h
        · simp at h
        · simp only [Except.ok.injEq, Prod.mk.injEq] at h
          obtain ⟨-, rfl⟩ := h
          simp

/-- The rest of a string whose opening quote has been read. -/
def quoted (s : List Char) : Read (List Char) :=
  match _h : readChar s with
  | .error f => .error f
  | .ok (none, rest) => .ok ([], rest)
  | .ok (some c, rest) =>
    match quoted rest with
    | .error f => .error f
    | .ok (cs, rest) => .ok (c :: cs, rest)
termination_by s.length
decreasing_by exact readChar_length _h

theorem quoted_cons {s rest : List Char} {c : Char} (h : readChar s = .ok (some c, rest)) :
    quoted s = match quoted rest with
      | .error f => .error f
      | .ok (cs, rest) => .ok (c :: cs, rest) := by
  rw [quoted]
  split <;> simp_all

theorem quoted_close {s rest : List Char} (h : readChar s = .ok (none, rest)) :
    quoted s = .ok ([], rest) := by
  rw [quoted]
  split <;> simp_all

theorem unit?_hexDigit : ∀ n : Fin 32,
    unit? '0' '0' (hexDigit (n / 16)) (hexDigit (n % 16)) = some n.val := by
  decide

theorem readChar_encodeChar (c : Char) (rest : List Char) :
    readChar (encodeChar c ++ rest) = .ok (some c, rest) := by
  have ofNat : ∀ n, c.toNat = n → c = Char.ofNat n := fun n h => by rw [← h, Char.ofNat_toNat]
  unfold encodeChar
  split
  · simp_all [readChar, readEscape, shortEscape?]
  split
  · simp_all [readChar, readEscape, shortEscape?]
  split
  · rename_i h; rw [ofNat _ h]; rfl
  split
  · rename_i h; rw [ofNat _ h]; rfl
  split
  · rename_i h; rw [ofNat _ h]; rfl
  split
  · rename_i h; rw [ofNat _ h]; rfl
  split
  · rename_i h; rw [ofNat _ h]; rfl
  split
  · rename_i h
    have hu : unit? '0' '0' (hexDigit (c.toNat / 16)) (hexDigit (c.toNat % 16)) = some c.toNat :=
      unit?_hexDigit ⟨c.toNat, h⟩
    have hl : ¬ Text.isLowSurrogate c.toNat = true := by
      rw [Text.isLowSurrogate_iff]
      omega
    have hh : ¬ Text.isHighSurrogate c.toNat = true := by
      rw [Text.isHighSurrogate_iff]
      omega
    simp [readChar, readEscape, readUnit, hu, hl, hh, Char.ofNat_toNat]
  · simp_all [readChar]

theorem quoted_encode (s rest : List Char) :
    quoted (s.flatMap encodeChar ++ '"' :: rest) = .ok (s, rest) := by
  induction s with
  | nil => exact quoted_close (by simp [readChar])
  | cons c s ih =>
    rw [List.flatMap_cons, List.append_assoc, quoted_cons (readChar_encodeChar c _), ih]

example : (quoted "a\\u00e9\\ud83d\\ude00\\n\" tail".toList).toOption
    = some (['a', 'é', '😀', '\n'], " tail".toList) := by decide +kernel

end Quoted
end Json
end Census
