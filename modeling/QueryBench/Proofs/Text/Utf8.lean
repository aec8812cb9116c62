import QueryBench.Text.Bytes

/-!
# UTF-8 and ASCII bytes

In UTF-8 a byte below 128 is a whole character.  So searching for such bytes,
counting them or cutting them off at the ends commutes with encoding.  Texts and their
bytes have one order.
-/

namespace QueryBench
namespace Bytes

/-- The UTF-8 form of some characters. -/
def ofChars (cs : List Char) : Bytes := cs.flatMap String.utf8EncodeChar

theorem ofString_eq_ofChars (s : String) : ofString s = ofChars s.toList := rfl

@[simp] theorem ofString_ofList (cs : List Char) : ofString (String.ofList cs) = ofChars cs := by
  simp [ofString, ofChars]

@[simp] theorem ofChars_nil : ofChars [] = [] := rfl

@[simp] theorem ofChars_cons (c : Char) (cs : List Char) :
    ofChars (c :: cs) = String.utf8EncodeChar c ++ ofChars cs := rfl

@[simp] theorem ofChars_append (cs ds : List Char) :
    ofChars (cs ++ ds) = ofChars cs ++ ofChars ds := by
  simp [ofChars]

theorem toByteArray_injective {a b : Bytes} (h : a.toByteArray = b.toByteArray) : a = b := by
  have hdata := congrArg ByteArray.data h
  rw [List.data_toByteArray, List.data_toByteArray] at hdata
  exact List.toArray_inj hdata

theorem toString?_eq_some_iff {b : Bytes} {s : String} :
    b.toString? = some s ↔ b = ofString s := by
  constructor
  · intro h
    unfold toString? String.fromUTF8? at h
    split at h
    · rename_i hvalid
      apply toByteArray_injective
      rw [toByteArray_ofString, ← Option.some.inj h]
      rfl
    · cases h
  · rintro rfl
    exact toString?_ofString s

/-! ## Characters of one byte -/

theorem utf8EncodeChar_of_ascii {c : Char} (h : c.toNat < 0x80) :
    String.utf8EncodeChar c = [UInt8.ofNat c.toNat] := by
  have hle : c.val.toNat ≤ 0x7F := Nat.le_of_lt_succ h
  unfold String.utf8EncodeChar
  exact if_pos hle

/-- All bytes of another character have their upper bit set. -/
theorem le_of_mem_utf8EncodeChar {c : Char} (h : ¬ c.toNat < 0x80) {b : UInt8}
    (hb : b ∈ String.utf8EncodeChar c) : 0x80 ≤ b.toNat := by
  have hlarge : ¬ c.val.toNat ≤ 0x7F := fun hle ↦ h (Nat.lt_succ_of_le hle)
  have hbound : c.val.toNat < 0x110000 := by
    have := c.valid
    simp only [UInt32.isValidChar, Nat.isValidChar] at this
    omega
  unfold String.utf8EncodeChar at hb
  simp only [hlarge, if_false] at hb
  split at hb
  · simp only [List.mem_cons, List.not_mem_nil, or_false] at hb
    rcases hb with rfl | rfl <;> simp only [UInt8.toNat_ofNat'] <;> omega
  · split at hb
    · simp only [List.mem_cons, List.not_mem_nil, or_false] at hb
      rcases hb with rfl | rfl | rfl <;> simp only [UInt8.toNat_ofNat'] <;> omega
    · simp only [List.mem_cons, List.not_mem_nil, or_false] at hb
      rcases hb with rfl | rfl | rfl | rfl <;> simp only [UInt8.toNat_ofNat'] <;> omega

/-- The bytes of a text determine its first character. -/
theorem utf8EncodeChar_append_inj {c d : Char} {x y : Bytes}
    (h : String.utf8EncodeChar c ++ x = String.utf8EncodeChar d ++ y) : c = d := by
  have hdecode : ∀ (e : Char) (z : Bytes),
      (String.utf8EncodeChar e ++ z).toByteArray.utf8DecodeChar? 0 = some e := by
    intro e z
    rw [List.toByteArray_append]
    exact ByteArray.utf8DecodeChar?_utf8EncodeChar_append
  have hc := hdecode c x
  rw [h, hdecode d y] at hc
  exact (Option.some.inj hc).symm

/-- The characters that a test of ASCII bytes accepts. -/
def acceptsChar (p : UInt8 → Bool) (c : Char) : Bool :=
  decide (c.toNat < 0x80) && p (UInt8.ofNat c.toNat)

section AsciiTest

variable {p : UInt8 → Bool} (hp : ∀ b, p b = true → b.toNat < 0x80)

include hp

/-- The encoding of a character is one accepted byte, or has no accepted byte. -/
theorem utf8EncodeChar_cases (c : Char) :
    (acceptsChar p c = true ∧ ∃ b, String.utf8EncodeChar c = [b] ∧ p b = true) ∨
      (acceptsChar p c = false ∧ ∀ b ∈ String.utf8EncodeChar c, p b = false) := by
  by_cases hc : c.toNat < 0x80
  · rw [utf8EncodeChar_of_ascii hc]
    cases haccepts : p (UInt8.ofNat c.toNat) with
    | true => exact .inl ⟨by simp [acceptsChar, hc, haccepts], _, rfl, haccepts⟩
    | false =>
        refine .inr ⟨by simp [acceptsChar, haccepts], ?_⟩
        intro b hb
        rw [List.mem_singleton.mp hb]
        exact haccepts
  · refine .inr ⟨by simp [acceptsChar, hc], ?_⟩
    intro b hb
    have hle := le_of_mem_utf8EncodeChar hc hb
    rw [← Bool.not_eq_true]
    intro haccepts
    have := hp b haccepts
    omega

theorem countP_ofChars (cs : List Char) :
    (ofChars cs).countP p = cs.countP (acceptsChar p) := by
  induction cs with
  | nil => rfl
  | cons c cs ih =>
      rw [ofChars_cons, List.countP_append, ih, List.countP_cons]
      rcases utf8EncodeChar_cases hp c with ⟨haccepts, b, hb, hpb⟩ | ⟨hrejects, hnone⟩
      · rw [hb, haccepts]
        simp [hpb, Nat.add_comm]
      · rw [hrejects, List.countP_eq_zero.mpr fun b hb ↦ by simp [hnone b hb]]
        simp

theorem dropWhile_ofChars (cs : List Char) :
    (ofChars cs).dropWhile p = ofChars (cs.dropWhile (acceptsChar p)) := by
  induction cs with
  | nil => rfl
  | cons c cs ih =>
      rcases utf8EncodeChar_cases hp c with ⟨haccepts, b, hb, hpb⟩ | ⟨hrejects, hnone⟩
      · simp [hb, hpb, haccepts, ih]
      · rw [List.dropWhile_cons, hrejects, ofChars_cons]
        cases hbytes : String.utf8EncodeChar c with
        | nil => exact absurd hbytes String.utf8EncodeChar_ne_nil
        | cons b bs =>
            have hb := hnone b (by simp [hbytes])
            simp [hb, hbytes]

theorem dropWhile_reverse_ofChars (cs : List Char) :
    (ofChars cs.reverse).reverse.dropWhile p =
      (ofChars (cs.dropWhile (acceptsChar p)).reverse).reverse := by
  induction cs with
  | nil => rfl
  | cons c cs ih =>
      rw [List.reverse_cons, ofChars_append, List.reverse_append]
      rcases utf8EncodeChar_cases hp c with ⟨haccepts, b, hb, hpb⟩ | ⟨hrejects, hnone⟩
      · simp [hb, hpb, haccepts, ih]
      · rw [List.dropWhile_cons, hrejects, ofChars_cons]
        cases hbytes : (String.utf8EncodeChar c).reverse with
        | nil =>
            exact absurd (List.reverse_eq_nil_iff.mp hbytes) String.utf8EncodeChar_ne_nil
        | cons b bs =>
            have hmem : b ∈ String.utf8EncodeChar c := by
              rw [← List.mem_reverse, hbytes]
              exact List.mem_cons_self
            simp [hnone b hmem, hbytes]

end AsciiTest

/-! ## Order -/

theorem ofNat_cons_lt_iff {m n : Nat} (hm : m < 0x100) (hn : n < 0x100) (x y : Bytes) :
    UInt8.ofNat m :: x < UInt8.ofNat n :: y ↔ m < n ∨ m = n ∧ x < y := by
  have hm' : m % 2 ^ 8 = m := Nat.mod_eq_of_lt hm
  have hn' : n % 2 ^ 8 = n := Nat.mod_eq_of_lt hn
  rw [List.cons_lt_cons_iff, UInt8.lt_iff_toNat_lt, ← UInt8.toNat_inj, UInt8.toNat_ofNat',
    UInt8.toNat_ofNat', hm', hn']

/-- The bytes of a smaller character come first, whatever follows. -/
theorem utf8EncodeChar_append_lt {c d : Char} (h : c < d) (x y : Bytes) :
    String.utf8EncodeChar c ++ x < String.utf8EncodeChar d ++ y := by
  have hval : c.val.toNat < d.val.toNat := h
  have hbound : d.val.toNat < 0x110000 := by
    have := d.valid
    simp only [UInt32.isValidChar, Nat.isValidChar] at this
    omega
  unfold String.utf8EncodeChar
  generalize c.val.toNat = m at *
  generalize d.val.toNat = n at *
  dsimp only
  -- Each digit comes from the one above it, which is how the first difference is found.
  have hthree : ∀ k, k / 4096 = k / 64 / 64 := fun k ↦ (Nat.div_div_eq_div_mul k 64 64).symm
  have hfour : ∀ k, k / 262144 = k / 64 / 64 / 64 := by omega
  simp only [hthree, hfour]
  repeat' split
  all_goals
    simp (disch := omega) only [List.cons_append, List.nil_append, ofNat_cons_lt_iff]
    generalize (x < y) = rest
    omega

theorem ofChars_lt {cs ds : List Char} (h : cs < ds) : ofChars cs < ofChars ds := by
  induction h with
  | @nil d ds =>
      rw [ofChars_nil, ofChars_cons]
      cases hbytes : String.utf8EncodeChar d with
      | nil => exact absurd hbytes String.utf8EncodeChar_ne_nil
      | cons b bs => exact List.nil_lt_cons b _
  | rel hfirst => exact utf8EncodeChar_append_lt hfirst _ _
  | cons _ ih =>
      rw [ofChars_cons, ofChars_cons]
      exact List.append_left_lt ih

/-- The order of texts is that of their bytes. -/
theorem ofString_lt {s t : String} (h : s < t) : ofString s < ofString t := by
  rw [ofString_eq_ofChars, ofString_eq_ofChars]
  exact ofChars_lt h

end Bytes
end QueryBench
