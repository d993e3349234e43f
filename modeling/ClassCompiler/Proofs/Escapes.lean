import Mathlib.Data.List.Basic
import ClassCompiler.Assembly.Line

/-!
# Reading a text between quotes

An assembler takes the characters of a string out of their quotes: it ends the string at the first
quote that no backslash escapes, and replaces the escapes by what they stand for.

Results:
1. `decode_encode`, `encode_injective`: a text is read back, whatever characters it has.
2. `isControl_of_mem_encode`: no control character is written.
3. `enclosed_encode`: the quote behind the text is the first that is not escaped.
-/

namespace ClassCompiler.Assembly.Quoted

/-! ## Escapes -/

/-- The character that one letter behind a backslash stands for. -/
def named? (c : Char) : Option Char :=
  if c = 'n' then some '\n'
  else if c = 't' then some '\t'
  else if c = '"' ∨ c = '\\' then some c
  else none

def octalDigit? (c : Char) : Option Nat :=
  if '0' ≤ c ∧ c ≤ '7' then some (c.toNat - '0'.toNat) else none

/-- The ASCII character that three octal digits behind a backslash stand for. -/
def numbered? (a b c : Char) : Option Char := do
  let n := 64 * (← octalDigit? a) + 8 * (← octalDigit? b) + (← octalDigit? c)
  if n < 128 then some (Char.ofNat n) else none

/-- The text that an assembler reads between two quotes. It takes no other escapes, and no quote
that is not escaped. -/
def decode : List Char → Option (List Char)
  | [] => some []
  | '\\' :: a :: rest =>
    match named? a with
    | some c => (decode rest).map (c :: ·)
    | none =>
      match rest with
      | b :: c :: rest => (numbered? a b c).bind fun c => (decode rest).map (c :: ·)
      | _ => none
  | c :: rest => if c = '\\' ∨ c = '"' then none else (decode rest).map (c :: ·)

theorem decode_named {a c : Char} (h : named? a = some c) (rest : List Char) :
    decode ('\\' :: a :: rest) = (decode rest).map (c :: ·) := by
  rw [decode.eq_def]
  simp only [h]

theorem decode_numbered {a b c d : Char} (hnamed : named? a = none) (h : numbered? a b c = some d)
    (rest : List Char) :
    decode ('\\' :: a :: b :: c :: rest) = (decode rest).map (d :: ·) := by
  rw [decode, hnamed]
  simp only [h, Option.bind_some]

theorem decode_plain {c : Char} (hquote : c ≠ '"') (hbackslash : c ≠ '\\') (rest : List Char) :
    decode (c :: rest) = (decode rest).map (c :: ·) := by
  rw [decode]
  · simp [hquote, hbackslash]
  · exact fun a rest' h => absurd h hbackslash

/-- A digit is a digit, and nothing that an assembler would take for more. -/
theorem octalDigit_spec (n : Nat) :
    octalDigit? (octalDigit n) = some (n % 8) ∧ named? (octalDigit n) = none ∧
      isControl (octalDigit n) = false ∧ octalDigit n ≠ '"' ∧ octalDigit n ≠ '\\' := by
  have hdigits : ∀ d < 8, octalDigit? (octalDigit d) = some d ∧ named? (octalDigit d) = none ∧
      isControl (octalDigit d) = false ∧ octalDigit d ≠ '"' ∧ octalDigit d ≠ '\\' := by decide
  have hmod : octalDigit (n % 8) = octalDigit n := by rw [octalDigit, Nat.mod_mod, octalDigit]
  have h := hdigits (n % 8) (Nat.mod_lt n (by decide))
  rwa [hmod] at h

theorem numbered?_octal {n : Nat} (hn : n < 128) :
    numbered? (octalDigit (n / 64)) (octalDigit (n / 8)) (octalDigit n) = some (Char.ofNat n) := by
  have hvalue : 64 * (n / 64 % 8) + 8 * (n / 8 % 8) + n % 8 = n := by omega
  simp only [numbered?, (octalDigit_spec _).1, Option.bind_eq_bind, Option.bind_some, hvalue,
    if_pos hn]

/-! ## What is written for a character -/

theorem encodeChar_cases (c : Char) :
    (∃ a, named? a = some c ∧ isControl a = false ∧ encodeChar c = ['\\', a]) ∨
      (isControl c = true ∧ encodeChar c = '\\' :: octal c.toNat) ∨
      (isControl c = false ∧ c ≠ '"' ∧ c ≠ '\\' ∧ encodeChar c = [c]) := by
  rw [encodeChar]
  split_ifs with hfeed htab hquote hbackslash hcontrol
  · exact .inl ⟨'n', by simp [named?, hfeed], rfl, rfl⟩
  · exact .inl ⟨'t', by simp [named?, htab], rfl, rfl⟩
  · exact .inl ⟨'"', by simp [named?, hquote], rfl, rfl⟩
  · exact .inl ⟨'\\', by simp [named?, hbackslash], rfl, rfl⟩
  · exact .inr (.inl ⟨hcontrol, rfl⟩)
  · exact .inr (.inr ⟨Bool.eq_false_iff.mpr hcontrol, hquote, hbackslash, rfl⟩)

theorem isControl_of_mem_encodeChar {c x : Char} (h : x ∈ encodeChar c) : isControl x = false := by
  obtain ⟨a, -, ha, heq⟩ | ⟨-, heq⟩ | ⟨hc, -, -, heq⟩ := encodeChar_cases c
  · rw [heq, List.mem_pair] at h
    obtain rfl | rfl := h
    · rfl
    · exact ha
  · rw [heq, octal] at h
    simp only [List.mem_cons, List.not_mem_nil, or_false] at h
    obtain rfl | rfl | rfl | rfl := h
    · rfl
    all_goals exact (octalDigit_spec _).2.2.1
  · rw [heq, List.mem_singleton] at h
    rwa [h]

theorem decode_encodeChar (c : Char) (rest : List Char) :
    decode (encodeChar c ++ rest) = (decode rest).map (c :: ·) := by
  obtain ⟨a, ha, -, heq⟩ | ⟨hc, heq⟩ | ⟨-, hquote, hbackslash, heq⟩ := encodeChar_cases c
  · rw [heq]
    exact decode_named ha rest
  · have hascii : c.toNat < 128 := by
      simp only [isControl, Bool.or_eq_true, decide_eq_true_eq, beq_iff_eq] at hc
      omega
    have hnumbered := numbered?_octal hascii
    rw [Char.ofNat_toNat] at hnumbered
    rw [heq]
    exact decode_numbered (octalDigit_spec _).2.1 hnumbered rest
  · rw [heq]
    exact decode_plain hquote hbackslash rest

theorem decode_flatMap (cs : List Char) : decode (cs.flatMap encodeChar) = some cs := by
  induction cs with
  | nil => rfl
  | cons c cs ih => rw [List.flatMap_cons, decode_encodeChar, ih, Option.map_some]

/-- A text is read back from what is written for it. -/
theorem decode_encode (value : String) : decode (encode value).toList = some value.toList := by
  rw [encode, String.toList_ofList, decode_flatMap]

theorem encode_injective : Function.Injective encode := by
  intro x y h
  have hread : some x.toList = some y.toList := by rw [← decode_encode, ← decode_encode, h]
  exact String.toList_inj.mp (Option.some.inj hread)

theorem isControl_of_mem_encode {value : String} {x : Char} (h : x ∈ (encode value).toList) :
    isControl x = false := by
  rw [encode, String.toList_ofList, List.mem_flatMap] at h
  obtain ⟨c, -, hx⟩ := h
  exact isControl_of_mem_encodeChar hx

/-! ## The closing quote -/

/-- The characters end in a backslash that is not escaped itself, and so escapes what follows. -/
def escapesNext (cs : List Char) : Bool := cs.foldl (fun escaped c => !escaped && c = '\\') false

/-- Every quote in the characters is escaped, and no quote behind them is. -/
structure Enclosed (cs : List Char) : Prop where
  escaped : ∀ before after, cs = before ++ '"' :: after → escapesNext before = true
  complete : escapesNext cs = false

theorem escapesNext_append {xs : List Char} (h : escapesNext xs = false) (ys : List Char) :
    escapesNext (xs ++ ys) = escapesNext ys := by
  rw [escapesNext] at h
  rw [escapesNext, List.foldl_append, h, escapesNext]

namespace Enclosed

theorem nil : Enclosed [] where
  escaped before after h := by simp at h
  complete := rfl

theorem append {xs ys : List Char} (hx : Enclosed xs) (hy : Enclosed ys) : Enclosed (xs ++ ys) where
  escaped before after h := by
    rcases List.append_eq_append_iff.mp h with ⟨mid, rfl, hys⟩ | ⟨mid, hxs, hmid⟩
    · rw [escapesNext_append hx.complete]
      exact hy.escaped mid after hys
    · cases mid with
      | nil =>
        -- the second part would begin with a quote that nothing escapes
        have hfirst := hy.escaped [] after hmid.symm
        cases hfirst
      | cons c mid =>
        obtain ⟨rfl, -⟩ := List.cons.inj hmid
        exact hx.escaped before mid hxs
  complete := by rw [escapesNext_append hx.complete, hy.complete]

theorem plain {c : Char} (hquote : c ≠ '"') (hbackslash : c ≠ '\\') : Enclosed [c] where
  escaped before after h := by
    cases before with
    | nil => exact absurd (List.cons.inj h).1 hquote
    | cons d before => simp at h
  complete := by simp [escapesNext, hbackslash]

theorem escape (c : Char) : Enclosed ['\\', c] where
  escaped before after h := by
    rcases before with _ | ⟨d, _ | ⟨e, before⟩⟩
    · simp at h
    · obtain ⟨rfl, -⟩ := List.cons.inj h
      rfl
    · simp at h
  complete := by simp [escapesNext]

end Enclosed

theorem enclosed_encodeChar (c : Char) : Enclosed (encodeChar c) := by
  obtain ⟨a, -, -, heq⟩ | ⟨-, heq⟩ | ⟨-, hquote, hbackslash, heq⟩ := encodeChar_cases c
  · rw [heq]
    exact .escape a
  · have hdigit : ∀ n, Enclosed [octalDigit n] := fun n =>
      .plain (octalDigit_spec n).2.2.2.1 (octalDigit_spec n).2.2.2.2
    rw [heq]
    exact (Enclosed.escape _).append ((hdigit _).append (hdigit _))
  · rw [heq]
    exact .plain hquote hbackslash

theorem enclosed_encode (value : String) : Enclosed (encode value).toList := by
  rw [encode, String.toList_ofList]
  induction value.toList with
  | nil => exact .nil
  | cons c cs ih => exact List.flatMap_cons ▸ (enclosed_encodeChar c).append ih

end ClassCompiler.Assembly.Quoted
