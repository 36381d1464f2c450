import Census.Text.Utf8
import Mathlib.Data.List.Basic

/-!
# Text and its bytes

The bytes of a text are its UTF-8 form, so they are well formed and stand for that text. Every file
that a census writes is read back as the text that was written because of that.
-/

namespace Census
namespace Text

theorem toList_loop (b : ByteArray) (i : Nat) (r : List UInt8) :
    ByteArray.toList.loop b i r = r.reverse ++ b.data.toList.drop i := by
  -- The loop collects the bytes from `i` on in `r`, the last one first.
  induction i, r using ByteArray.toList.loop.induct b with
  | case1 i r more ih =>
    have byte : b.get! i = b.data.toList[i] := by
      show b.data[i]! = b.data.toList[i]
      rw [getElem!_pos b.data i more, Array.getElem_toList]
    rw [ByteArray.toList.loop.eq_def, if_pos more, ih, byte, List.reverse_cons, List.append_assoc,
      List.singleton_append, List.getElem_cons_drop]
  | case2 i r finished =>
    have none_left : b.data.toList.drop i = [] := List.drop_eq_nil_of_le (Nat.not_lt.mp finished)
    rw [ByteArray.toList.loop.eq_def, if_neg finished, none_left, List.append_nil]

theorem toList_byteArray (b : ByteArray) : b.toList = b.data.toList := toList_loop b 0 []

theorem mk_bytes (s : String) : ByteArray.mk (bytes s).toArray = s.toByteArray := by
  rw [bytes, toList_byteArray, Array.toArray_toList, String.toUTF8_eq_toByteArray]

/-- The bytes of a text stand for it. -/
theorem ofBytes?_bytes (s : String) : ofBytes? (bytes s) = some s := by
  rw [ofBytes?, mk_bytes, String.fromUTF8?, dif_pos s.isValidUTF8]
  rfl

end Text
end Census
