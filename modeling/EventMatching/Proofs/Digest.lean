/-
The bytes that are hashed for a value.

What is hashed depends on the content of a value only (`digest_eq_bytes`), and no two contents have the same bytes
(`Content.bytes_inj`): the first byte tells the kinds apart, and behind it stands the content itself. The fixed widths are
wide enough: sixteen bytes in two's complement hold every integer type, and eight bytes hold all bits of a double.
-/
import EventMatching.Proofs.Value

namespace EventMatching

/-! ## Fixed-width bytes -/

namespace Value

theorem ofNat_inj {m n : Nat} (hm : m < 256) (hn : n < 256) (h : UInt8.ofNat m = UInt8.ofNat n) : m = n := by
  have h := congrArg UInt8.toNat h
  rwa [UInt8.toNat_ofNat_of_lt' hm, UInt8.toNat_ofNat_of_lt' hn] at h

/-- numbers with the same lowest bytes differ by a multiple of what these bytes can count -/
theorem dvd_of_littleEndian_eq {count : Nat} {m n : Int} (h : littleEndian count m = littleEndian count n) :
    ((Nat.pow 256 count : Nat) : Int) ∣ m - n := by
  induction count generalizing m n with
  | zero => simp
  | succ count ih =>
    simp only [littleEndian, List.cons.injEq] at h
    obtain ⟨hbyte, hrest⟩ := h
    have hbyte : (m % 256).toNat = (n % 256).toNat := ofNat_inj (by omega) (by omega) hbyte
    obtain ⟨k, hk⟩ := ih hrest
    refine ⟨k, ?_⟩
    have hpow : Nat.pow 256 (count + 1) = 256 * Nat.pow 256 count := Nat.mul_comm _ _
    rw [hpow, Int.natCast_mul, Int.mul_assoc, ← hk]
    omega

/-- the bytes determine the number among those of one window of their width -/
theorem littleEndian_inj {count : Nat} {low m n : Int} (h : littleEndian count m = littleEndian count n)
    (hm : low ≤ m ∧ m < low + (Nat.pow 256 count : Nat)) (hn : low ≤ n ∧ n < low + (Nat.pow 256 count : Nat)) :
    m = n := by
  have hd : Nat.pow 256 count ∣ (m - n).natAbs := Int.ofNat_dvd_left.1 (dvd_of_littleEndian_eq h)
  have := Nat.eq_zero_of_dvd_of_lt hd (by omega)
  omega

end Value

/-! ## Bits of a number -/

namespace Binary

variable {F : BinaryFormat}

theorem toBits_lt (x : Binary F) : x.toBits < 2 * F.codes := by
  have := x.code_lt
  unfold toBits
  split <;> omega

theorem toBits_inj {x y : Binary F} (h : x.toBits = y.toBits) : x = y := by
  obtain ⟨s, c, hc⟩ := x
  obtain ⟨s', c', hc'⟩ := y
  simp only [toBits] at h
  -- all codes lie below the sign bit
  cases s <;> cases s' <;> simp only [Bool.false_eq_true, if_true, if_false] at h <;>
    simp only [mk.injEq, true_and, reduceCtorEq, false_and] <;> omega

end Binary

/-! ## Bytes of a text -/

/-- listing the bytes from a place on, behind those that have been listed, which are kept in reverse -/
theorem byteList_loop (bytes : ByteArray) (i : Nat) (done : List UInt8) :
    ByteArray.toList.loop bytes i done = done.reverse ++ bytes.data.toList.drop i := by
  fun_induction ByteArray.toList.loop bytes i done with
  | case1 i done hi ih =>
    have hlt : i < bytes.data.toList.length := hi
    have hbyte : bytes.get! i = bytes.data.toList[i] := by
      show bytes.data[i]! = _
      rw [getElem!_pos bytes.data i hi, Array.getElem_toList]
    calc ByteArray.toList.loop bytes (i + 1) (bytes.get! i :: done)
      _ = (bytes.get! i :: done).reverse ++ bytes.data.toList.drop (i + 1) := ih
      _ = done.reverse ++ bytes.data.toList[i] :: bytes.data.toList.drop (i + 1) := by
        rw [List.reverse_cons, List.append_assoc, hbyte]
        rfl
      _ = done.reverse ++ bytes.data.toList.drop i := by rw [List.drop_eq_getElem_cons hlt]
  | case2 i done hi =>
    have hend : bytes.data.toList.drop i = [] := List.drop_eq_nil_of_le (Nat.le_of_not_lt hi)
    rw [hend, List.append_nil]

theorem toList_bytes (bytes : ByteArray) : bytes.toList = bytes.data.toList := byteList_loop bytes 0 []

theorem utf8_inj {s t : String} (h : s.toUTF8.toList = t.toUTF8.toList) : s = t := by
  rw [toList_bytes, toList_bytes] at h
  apply String.toByteArray_inj.1
  apply ByteArray.ext
  exact Array.toList_inj.1 h

/-! ## Contents -/

namespace Value

/-- the bytes that stand for a content: a tag for its kind, then the content -/
def Content.bytes : Content → List UInt8
  | .integer n => 0 :: littleEndian 16 n
  | .decimal x => 1 :: littleEndian 8 x.toBits
  | .null => [2]
  | .bool b => [3, if b then 1 else 0]
  | .text s => 4 :: s.toUTF8.toList ++ [255]

theorem digest_eq_bytes (v : Value) : v.digest = v.content.bytes := by cases v <;> rfl

/-- the content is one that a value has: an integer is a number of some type -/
def Content.Held : Content → Prop
  | .integer n => ∃ t : IntType, t.Fits n
  | _ => True

theorem content_held (v : Value) : v.content.Held := by
  cases v with
  | int t n fits => exact ⟨t, fits⟩
  | _ => trivial

/-- every integer type lies within what sixteen bytes hold -/
theorem fits_window {t : IntType} {n : Int} (h : t.Fits n) :
    -(Nat.pow 256 15 : Nat) ≤ n ∧ n < -((Nat.pow 256 15 : Nat) : Int) + (Nat.pow 256 16 : Nat) := by
  have h15 : ((Nat.pow 256 15 : Nat) : Int) = 1329227995784915872903807060280344576 := by decide
  have h16 : ((Nat.pow 256 16 : Nat) : Int) = 340282366920938463463374607431768211456 := by decide
  rw [h15, h16]
  unfold IntType.Fits at h
  cases t <;> simp [IntType.signed, IntType.size] at h <;> omega

/-- **No two contents have the same bytes.** -/
theorem Content.bytes_inj {c d : Content} (hc : c.Held) (hd : d.Held) (h : c.bytes = d.bytes) : c = d := by
  -- contents of different kinds differ in the first byte
  cases c <;> cases d <;> simp only [bytes, List.cons_append, List.cons.injEq] at h <;>
    try first | rfl | exact absurd h.1 (by decide)
  case bool.bool b b' => cases b <;> cases b' <;> first | rfl | exact absurd h.2.1 (by decide)
  case integer.integer m n =>
    obtain ⟨t, ht⟩ := hc
    obtain ⟨t', ht'⟩ := hd
    exact congrArg Content.integer (littleEndian_inj h.2 (fits_window ht) (fits_window ht'))
  case decimal.decimal x y =>
    have hw (z : Binary64) : (0 : Int) ≤ z.toBits ∧ (z.toBits : Int) < 0 + (Nat.pow 256 8 : Nat) := by
      have h64 : 2 * BinaryFormat.double.codes = Nat.pow 256 8 := by decide
      have := z.toBits_lt
      omega
    have hbits := littleEndian_inj h.2 (hw x) (hw y)
    exact congrArg Content.decimal (Binary.toBits_inj (by omega))
  case text.text s t => exact congrArg Content.text (utf8_inj (List.append_cancel_right h.2))

theorem digest_inj {v w : Value} (h : v.digest = w.digest) : v.content = w.content := by
  rw [digest_eq_bytes, digest_eq_bytes] at h
  exact Content.bytes_inj v.content_held w.content_held h

theorem digest_eq_iff {v w : Value} : v.digest = w.digest ↔ v == w := by
  rw [beq_iff]
  exact ⟨digest_inj, fun h => by rw [digest_eq_bytes, digest_eq_bytes, h]⟩

theorem content_of_asInteger {v : Value} {n : Int} (h : v.asInteger = some n) : v.content = .integer n := by
  cases v <;> simp_all [asInteger, content]

theorem content_of_asDecimal {v : Value} {x : Binary64} (h : v.asDecimal = some x) :
    v.content = .decimal x.canonical := by
  cases v <;> simp_all [asDecimal, content]

/-- **Equality of values is an equivalence, and what is hashed is exactly as fine.** Integers of any types have the same
bytes just if they are the same number, decimals of any widths just if both are NaN or they are equal as numbers, and an
integer never has the bytes of a decimal. -/
theorem digest_of_equality (a b c : Value) :
    a == a ∧ (a == b → b == a) ∧ (a == b → b == c → a == c) ∧ (a == b ↔ a.digest = b.digest) ∧
    (∀ m n, a.asInteger = some m → b.asInteger = some n → (a.digest = b.digest ↔ m = n)) ∧
    (∀ x y, a.asDecimal = some x → b.asDecimal = some y →
      (a.digest = b.digest ↔ (x.isNaN ∧ y.isNaN) ∨ x == y)) ∧
    (a.isInteger → b.isDecimal → a.digest ≠ b.digest) := by
  refine ⟨BEq.rfl, BEq.symm, BEq.trans, digest_eq_iff.symm, ?_, ?_, ?_⟩
  · intro m n ha hb
    rw [digest_eq_iff, beq_iff, content_of_asInteger ha, content_of_asInteger hb, Content.integer.injEq]
  · intro x y ha hb
    rw [digest_eq_iff, beq_iff, content_of_asDecimal ha, content_of_asDecimal hb, Content.decimal.injEq]
    exact Binary.alike_iff
  · intro ha hb h
    obtain ⟨n, hn⟩ := Option.isSome_iff_exists.1 ha
    obtain ⟨x, hx⟩ := Option.isSome_iff_exists.1 hb
    have h := digest_inj h
    rw [content_of_asInteger hn, content_of_asDecimal hx] at h
    cases h

end Value
end EventMatching
