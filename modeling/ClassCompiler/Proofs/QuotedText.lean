import Mathlib.Data.List.Basic
import ClassCompiler.Tree.Layout
import ClassCompiler.Tree.Number

/-!
# Written numbers and quoted texts

Digits are written by one function and read by two: as a number, with any sign, and as the number of
a character in a quoted text. Both readings follow the digits from the left, so they are told by the
list of digits and its value.

Results:
1. `exists_digits`: the digits of a number, in any base, have its value.
2. `Number.integer?_signText`: an integer that fits is read back with its sign.
3. `Quoted.decode_encode`: a quoted text is read back, whatever characters it has, and what follows
   its closing quote is left alone.
-/

namespace ClassCompiler.Tree

/-! ## Digits -/

/-- The number that some digits stand for, after the digits of another number. -/
def ofDigits (base : Nat) (value : Nat) (ds : List Nat) : Nat :=
  ds.foldl (base * · + ·) value

theorem exists_digits {base : Nat} (hbase : 1 < base) (n : Nat) :
    ∃ ds : List Nat, Nat.toDigits base n = ds.map Nat.digitChar ∧ (∀ d ∈ ds, d < base) ∧
      ofDigits base 0 ds = n := by
  induction n using Nat.strongRecOn with
  | _ n ih =>
    by_cases hn : n < base
    · exact ⟨[n], Nat.toDigits_of_lt_base hn, by simpa using hn, by simp [ofDigits]⟩
    · have hle : base ≤ n := Nat.le_of_not_lt hn
      obtain ⟨ds, hds, hlt, hval⟩ := ih (n / base) (Nat.div_lt_self (by omega) hbase)
      refine ⟨ds ++ [n % base], ?_, ?_, ?_⟩
      · rw [Nat.toDigits_of_base_le hbase hle, hds, List.map_append, List.map_singleton]
      · intro d hd
        rcases List.mem_append.mp hd with hd | hd
        · exact hlt d hd
        · rw [List.mem_singleton.mp hd]
          exact Nat.mod_lt n (by omega)
      · rw [ofDigits] at hval
        rw [ofDigits, List.foldl_append, hval]
        exact Nat.div_add_mod n base

theorem hexDigit?_digitChar {d : Nat} (hd : d < 16) : Quoted.hexDigit? d.digitChar = some d := by
  revert d
  decide

theorem digitChar_ne {d : Nat} (hd : d < 16) :
    d.digitChar ≠ '_' ∧ d.digitChar ≠ Quoted.closeBrace := by
  revert d
  decide

theorem Number.magnitude?_digits {base : Nat} (hbase : base ≤ 16) {ds : List Nat}
    (hds : ∀ d ∈ ds, d < base) (value : Nat) :
    Number.magnitude? base value (ds.map Nat.digitChar) = some (ofDigits base value ds) := by
  induction ds generalizing value with
  | nil => rfl
  | cons d ds ih =>
    have hd : d < base := hds d List.mem_cons_self
    have hlt : d < 16 := Nat.lt_of_lt_of_le hd hbase
    rw [List.map_cons, Number.magnitude?, if_neg (digitChar_ne hlt).1, hexDigit?_digitChar hlt]
    simp only [hd, if_true]
    exact ih (fun e he => hds e (List.mem_cons_of_mem d he)) _

namespace Quoted

theorem codePoint?_digits {ds : List Nat} (hds : ∀ d ∈ ds, d < 16) {limit : Nat}
    (hlimit : ds.length ≤ limit) (value : Nat) (rest : List Char) :
    codePoint? limit value (ds.map Nat.digitChar ++ closeBrace :: rest)
      = some (ofDigits 16 value ds, rest) := by
  induction ds generalizing limit value with
  | nil =>
    rw [List.map_nil, List.nil_append, codePoint?.eq_def]
    simp [ofDigits]
  | cons d ds ih =>
    have hd : d < 16 := hds d List.mem_cons_self
    obtain ⟨limit, rfl⟩ := Nat.exists_eq_add_one_of_ne_zero (Nat.ne_zero_of_lt hlimit)
    rw [List.map_cons, List.cons_append, codePoint?, if_neg (digitChar_ne hd).2]
    simp only [hexDigit?_digitChar hd]
    exact ih (fun e he => hds e (List.mem_cons_of_mem d he)) (Nat.le_of_succ_le_succ hlimit) _

theorem escaped?_codePoint (c : Char) (rest : List Char) :
    escaped? ('u' :: openBrace :: (Nat.toDigits 16 c.toNat ++ closeBrace :: rest))
      = some (c, rest) := by
  have hc : c.toNat < 16 ^ 6 := by
    have := c.valid
    simp only [UInt32.isValidChar, Nat.isValidChar] at this
    change c.val.toNat < _
    omega
  obtain ⟨ds, hds, hlt, hval⟩ := @exists_digits 16 (by decide) c.toNat
  have hlength : ds.length ≤ 6 := by
    rw [← List.length_map (f := Nat.digitChar), ← hds]
    exact (Nat.length_toDigits_le_iff (by decide) (by decide)).mpr hc
  have hread := codePoint?_digits hlt hlength 0 rest
  rw [hval, ← hds] at hread
  rw [hds] at hread ⊢
  cases ds with
  | nil => exact absurd hds Nat.toDigits_ne_nil
  | cons d ds =>
    rw [List.map_cons, List.cons_append] at hread ⊢
    have hd := (digitChar_ne (hlt d List.mem_cons_self)).2
    have hvalid : c.toNat.isValidChar := c.valid
    simp only [escaped?]
    simp [hread, hd, char?, hvalid, Char.ofNat_toNat]

theorem escaped?_shortEscape {apostrophe : Bool} {c e : Char}
    (h : shortEscape? apostrophe c = some e) (rest : List Char) :
    escaped? (e :: rest) = some (c, rest) := by
  simp only [shortEscape?] at h
  split_ifs at h with h₀ ht hr hn hq hb ha
  all_goals cases h
  · rw [h₀]; rfl
  · rw [ht]; rfl
  · rw [hr]; rfl
  · rw [hn]; rfl
  · rw [hq]; rfl
  · rw [hb]; rfl
  · rw [Bool.and_eq_true, decide_eq_true_eq] at ha
    rw [ha.1]; rfl

theorem ne_of_shortEscape?_eq_none {apostrophe : Bool} {c : Char}
    (h : shortEscape? apostrophe c = none) : c ≠ '"' ∧ c ≠ '\\' := by
  constructor <;> rintro rfl <;> simp [shortEscape?] at h

/-- Whichever way a character is written between quotes, it takes one step to read it. -/
theorem decodeWithin_encodeChar (apostrophe : Bool) (c : Char) (fuel : Nat) (read rest : List Char) :
    decodeWithin (fuel + 1) read (encodeChar apostrophe c ++ rest)
      = decodeWithin fuel (c :: read) rest := by
  rw [encodeChar]
  split
  next e he =>
    simp [decodeWithin, escaped?_shortEscape he]
  next he =>
    split
    · obtain ⟨hq, hb⟩ := ne_of_shortEscape?_eq_none he
      rw [List.singleton_append, decodeWithin]
      · exact hq
      · exact hb
    · simp [decodeWithin, escaped?_codePoint]

theorem encodeChar_ne_nil (apostrophe : Bool) (c : Char) : encodeChar apostrophe c ≠ [] := by
  rw [encodeChar]
  split
  · exact List.cons_ne_nil _ _
  · split
    · exact List.cons_ne_nil _ _
    · exact List.cons_ne_nil _ _

theorem decodeWithin_encode (apostrophe : Bool) (s : List Char) (fuel : Nat) (read rest : List Char) :
    decodeWithin (fuel + s.length + 1) read (s.flatMap (encodeChar apostrophe) ++ '"' :: rest)
      = some (String.ofList (read.reverse ++ s), rest) := by
  induction s generalizing read with
  | nil => simp [decodeWithin]
  | cons c s ih =>
    rw [List.flatMap_cons, List.append_assoc, decodeWithin_encodeChar]
    refine (ih (c :: read)).trans ?_
    rw [List.reverse_cons, List.append_assoc, List.singleton_append]

theorem length_le_length_encode (apostrophe : Bool) (s : List Char) :
    s.length ≤ (s.flatMap (encodeChar apostrophe)).length := by
  induction s with
  | nil => exact Nat.le_refl _
  | cons c s ih =>
    have := List.length_pos_iff.mpr (encodeChar_ne_nil apostrophe c)
    simp only [List.flatMap_cons, List.length_append, List.length_cons]
    omega

/-- A quoted text is read back, whatever it holds. -/
theorem decode_encode (apostrophe : Bool) (s : String) (rest : List Char) :
    decode (s.toList.flatMap (encodeChar apostrophe) ++ '"' :: rest) = some (s, rest) := by
  have hlength := length_le_length_encode apostrophe s.toList
  obtain ⟨fuel, hfuel⟩ : ∃ fuel,
      (s.toList.flatMap (encodeChar apostrophe) ++ '"' :: rest).length
        = fuel + s.toList.length + 1 := by
    refine Nat.exists_eq_add_of_le' (m := s.toList.length + 1) ?_
    simp only [List.length_append, List.length_cons]
    omega
  rw [decode, hfuel, decodeWithin_encode]
  simp

end Quoted

/-! ## Numbers -/

theorem Number.splitSign_signText (sign : Option Sign) {cs : List Char}
    (hcs : ∀ c ∈ cs, c.isDigit = true) :
    Number.splitSign ((Layout.signText sign).toList ++ cs) = (sign, cs) := by
  match sign with
  | some .plus => rfl
  | some .minus => rfl
  | none =>
    change Number.splitSign cs = (none, cs)
    rw [Number.splitSign.eq_def]
    split
    next rest => exact absurd (hcs _ List.mem_cons_self) (by decide)
    next rest => exact absurd (hcs _ List.mem_cons_self) (by decide)
    next => rfl

theorem Number.splitBase_digits {cs : List Char} (hcs : ∀ c ∈ cs, c.isDigit = true) :
    Number.splitBase cs = (10, cs) := by
  have absent (c d : Char) (rest : List Char) (h : d.isDigit = false) : c :: d :: rest ≠ cs := by
    rintro rfl
    simp [hcs d (by simp)] at h
  rw [Number.splitBase.eq_def]
  split
  next => exact absurd rfl (absent _ _ _ (by decide))
  next => exact absurd rfl (absent _ _ _ (by decide))
  next => exact absurd rfl (absent _ _ _ (by decide))
  next => rfl

theorem Number.integer?_signText {sign : Option Sign} {n : Nat} (h : Number.fits sign n = true) :
    Number.integer? ((Layout.signText sign).toList ++ Nat.toDigits 10 n) = some (sign, n) := by
  obtain ⟨ds, hds, hlt, hval⟩ := @exists_digits 10 (by decide) n
  have hmagnitude := Number.magnitude?_digits (by decide) hlt 0
  rw [← hds, hval] at hmagnitude
  have hdigits : ∀ c ∈ Nat.toDigits 10 n, c.isDigit = true :=
    fun _ => Nat.isDigit_of_mem_toDigits (by decide) (by decide)
  rw [Number.integer?, Number.splitSign_signText sign hdigits]
  simp only [Number.splitBase_digits hdigits]
  have hempty : (Nat.toDigits 10 n).isEmpty = false := by simp [Nat.toDigits_ne_nil]
  have hhead : ((Nat.toDigits 10 n).head? == some '_') = false := by
    rw [beq_eq_false_iff_ne]
    intro h
    exact Nat.underscore_not_in_toDigits (List.mem_of_mem_head? h)
  simp [hempty, hhead, hmagnitude, h]

end ClassCompiler.Tree
