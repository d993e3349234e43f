import ClassCompiler.Proofs.TreeTokens

/-!
# Parsing written trees

The parser takes a written tree apart again. Three units of fuel for each token are enough, and as
many levels as the tree is deep. What follows a value must not start with a parenthesis, which would
belong to the value if it is a name.

Results:
1. `Written.parsed`: the tokens of a written tree are parsed to the tree, and what follows is left.
2. `parse?_render`: the text of a written tree is parsed to the tree.
-/

namespace ClassCompiler.Tree

/-- What follows a value is no parenthesis that would belong to it. -/
def Follows (rest : List Token) : Prop :=
  rest.head? ≠ some .openParen ∧ rest.head? ≠ some .emptyParens

/-- The parser finds a tree with so many levels left, given enough fuel for its tokens. -/
def Parsed (x : Extensions) (levels : Nat) (t : Tree) : Prop :=
  ∀ (fuel : Nat) (rest : List Token), 3 * (tokens t).length ≤ fuel → Follows rest →
    value? x fuel levels (tokens t ++ rest) = some (t, rest)

variable {x : Extensions} {levels : Nat}

theorem follows_comma (rest : List Token) : Follows (.comma :: rest) := by simp [Follows]

theorem follows_closeParen (rest : List Token) : Follows (.closeParen :: rest) := by simp [Follows]

theorem depth_le_itemsDepth {down : Nat} {items : List Tree} {t : Tree} (h : t ∈ items) :
    down + t.depth ≤ itemsDepth down items := by
  induction items with
  | nil => cases h
  | cons u items ih =>
    rw [itemsDepth]
    rcases List.mem_cons.mp h with rfl | h
    · exact Nat.le_max_left _ _
    · exact Nat.le_trans (ih h) (Nat.le_max_right _ _)

theorem depth_le_fieldsDepth {fields : List (String × Tree)} {f : String × Tree} (h : f ∈ fields) :
    1 + f.2.depth ≤ fieldsDepth fields := by
  induction fields with
  | nil => cases h
  | cons g fields ih =>
    obtain ⟨key, t⟩ := g
    rw [fieldsDepth, fieldDepth]
    rcases List.mem_cons.mp h with rfl | h
    · exact Nat.le_max_left _ _
    · exact Nat.le_trans (ih h) (Nat.le_max_right _ _)

theorem named?_word {rest : List Token} (hrest : Follows rest) (fuel : Nat) (name : String) :
    named? x (fuel + 1) levels name rest = some (.word name, rest) := by
  rw [named?]
  · rintro more rfl
    exact hrest.2 rfl
  · rintro more rfl
    exact hrest.1 rfl

/-- Each item takes the fuel of its own tokens and one unit more. -/
theorem items?_itemsTokens {items : List Tree} (hwritten : ∀ t ∈ items, Written t)
    (hparsed : ∀ t ∈ items, Parsed x levels t) (fuel : Nat)
    (hfuel : 3 * (itemsTokens items).length < fuel) (rest : List Token) :
    items? x fuel levels .closeBracket (itemsTokens items ++ .closeBracket :: rest)
      = some (items, rest) := by
  obtain ⟨fuel, rfl⟩ := Nat.exists_eq_add_one_of_ne_zero (Nat.ne_zero_of_lt hfuel)
  induction items generalizing fuel with
  | nil => simp [itemsTokens, items?]
  | cons t items ih =>
    simp only [itemsTokens, List.length_append, List.length_cons] at hfuel
    have hvalue := hparsed t List.mem_cons_self fuel _ (by omega)
      (follows_comma (itemsTokens items ++ .closeBracket :: rest))
    obtain ⟨fuel, rfl⟩ : ∃ k, fuel = k + 1 := Nat.exists_eq_add_one_of_ne_zero (by omega)
    have htail := ih (fun t ht => hwritten t (List.mem_cons_of_mem _ ht))
      (fun t ht => hparsed t (List.mem_cons_of_mem _ ht)) fuel (by omega)
    have hhead := ((hwritten t List.mem_cons_self).head?_tokens
      (.comma :: (itemsTokens items ++ .closeBracket :: rest))).2
    rw [itemsTokens, List.append_assoc, List.cons_append, items?, if_neg hhead, hvalue]
    simp [htail]

theorem fields?_fieldsTokens {fields : List (String × Tree)}
    (hparsed : ∀ f ∈ fields, Parsed x levels f.2) (fuel : Nat)
    (hfuel : 3 * (fieldsTokens fields).length < fuel) (rest : List Token) :
    fields? x fuel levels (fieldsTokens fields ++ .closeParen :: rest) = some (fields, rest) := by
  obtain ⟨fuel, rfl⟩ := Nat.exists_eq_add_one_of_ne_zero (Nat.ne_zero_of_lt hfuel)
  induction fields generalizing fuel with
  | nil => simp [fieldsTokens, fields?]
  | cons f fields ih =>
    obtain ⟨key, t⟩ := f
    simp only [fieldsTokens, fieldTokens, List.length_append, List.length_cons] at hfuel
    have ht : Parsed x levels t := hparsed (key, t) List.mem_cons_self
    have hvalue := ht fuel _ (by omega) (follows_comma (fieldsTokens fields ++ .closeParen :: rest))
    obtain ⟨fuel, rfl⟩ : ∃ k, fuel = k + 1 := Nat.exists_eq_add_one_of_ne_zero (by omega)
    have htail := ih (fun f hf => hparsed f (List.mem_cons_of_mem _ hf)) fuel (by omega)
    simp only [fieldsTokens, fieldTokens, List.append_assoc, List.cons_append, fields?, hvalue, htail,
      Option.map_some]

theorem value?_caseName {name : String} (h : isCaseName name = true) (fuel : Nat) (rest : List Token) :
    value? x (fuel + 1) levels (.name false name :: rest) = named? x fuel levels name rest := by
  simp only [isCaseName, Bool.and_eq_true, Option.isNone_iff_eq_none, bne_iff_ne] at h
  obtain ⟨⟨⟨-, hspecial⟩, hafter⟩, hsome⟩ := h
  simp [value?, hsome, hspecial, hafter]

theorem parsed_of_token {t : Tree} {token : Token} (htokens : tokens t = [token])
    (h : ∀ (fuel : Nat) (rest : List Token), Follows rest →
      value? x (fuel + 2) levels (token :: rest) = some (t, rest)) : Parsed x levels t := by
  intro fuel rest hfuel hrest
  rw [htokens] at hfuel ⊢
  obtain ⟨fuel, rfl⟩ : ∃ k, fuel = k + 2 := Nat.exists_eq_add_of_le' (Nat.le_of_succ_le hfuel)
  exact h fuel rest hrest

/-- A name with a parenthesis after it goes on with what is inside the parenthesis. -/
theorem value?_open {name : String} (h : isCaseName name = true) (hlevels : levels ≠ 0) (fuel : Nat)
    (rest : List Token) :
    value? x (fuel + 2) levels (.name false name :: .openParen :: rest)
      = inside? x fuel (levels - 1) (some name) rest := by
  rw [value?_caseName h, named?, if_neg hlevels]

/-- A value in parentheses is no record, since no colon comes second. -/
theorem inside?_tokens {t : Tree} (ht : Written t) (fuel : Nat) (name : Option String)
    (rest : List Token) :
    inside? x (fuel + 1) levels name (tokens t ++ .closeParen :: rest)
      = (items? x fuel levels .closeParen (tokens t ++ .closeParen :: rest)).map
          fun (items, rest) => (.tuple name items, rest) := by
  cases ht <;> simp [tokens, inside?]

/-- The tokens of a written tree are parsed to the tree. -/
theorem Written.parsed {t : Tree} (h : Written t) (hlevels : t.depth ≤ levels) :
    Parsed x levels t := by
  induction h generalizing levels with
  | number hn => exact parsed_of_token (by rw [tokens]) fun fuel rest _ => by rw [value?]
  | text s => exact parsed_of_token (by rw [tokens]) fun fuel rest _ => by rw [value?]
  | flag b =>
    refine parsed_of_token (by rw [tokens]) fun fuel rest _ => ?_
    cases b <;> simp [value?, special?]
  | absent => exact parsed_of_token (by rw [tokens]) fun fuel rest _ => by simp [value?, special?]
  | word hname =>
    refine parsed_of_token (by rw [tokens]) fun fuel rest hrest => ?_
    rw [value?_caseName hname, named?_word hrest]
  | @present t h ih =>
    intro fuel rest hfuel hrest
    simp only [depth] at hlevels
    simp only [tokens, List.length_cons, List.length_append] at hfuel
    obtain ⟨fuel, rfl⟩ : ∃ k, fuel = k + 2 := Nat.exists_eq_add_of_le' (by omega)
    have hinner : t.depth ≤ levels - 1 := by omega
    have hvalue := ih hinner fuel _ (by omega) (follows_closeParen rest)
    have hpos : levels ≠ 0 := by omega
    simp [tokens, value?, optional?, hpos, hvalue]
  | @list items h ih =>
    intro fuel rest hfuel hrest
    simp only [depth] at hlevels
    simp only [tokens, List.length_cons, List.length_append] at hfuel
    obtain ⟨fuel, rfl⟩ : ∃ k, fuel = k + 1 := Nat.exists_eq_add_of_le' (by omega)
    have hinner : ∀ t ∈ items, t.depth ≤ levels - 1 := by
      intro t ht
      have := @depth_le_itemsDepth 1 items t ht
      omega
    have hitems := items?_itemsTokens h (fun t ht => ih t ht (hinner t ht)) fuel (by omega) rest
    have hpos : levels ≠ 0 := by omega
    simp [tokens, value?, hpos, hitems]
  | @case name t hname h ih =>
    intro fuel rest hfuel hrest
    simp only [depth, itemsDepth] at hlevels
    simp only [tokens, List.length_cons, List.length_append] at hfuel
    obtain ⟨fuel, rfl⟩ : ∃ k, fuel = k + 4 := Nat.exists_eq_add_of_le' (by omega)
    have hinner : t.depth ≤ levels - 1 := by omega
    have hvalue := ih hinner fuel _ (by omega) (follows_closeParen rest)
    have hhead := (h.head?_tokens (.closeParen :: rest)).1
    rw [tokens, List.cons_append, List.cons_append, List.append_assoc, List.singleton_append,
      value?_open hname (by omega), inside?_tokens h, items?, if_neg hhead, hvalue]
    rfl
  | @record name fields hname hne hkeys h ih =>
    intro fuel rest hfuel hrest
    simp only [depth] at hlevels
    simp only [tokens, List.length_cons, List.length_append] at hfuel
    obtain ⟨fuel, rfl⟩ : ∃ k, fuel = k + 3 := Nat.exists_eq_add_of_le' (by omega)
    have hinner : ∀ f ∈ fields, f.2.depth ≤ levels - 1 := by
      intro f hf
      have := depth_le_fieldsDepth hf
      omega
    have hfields := fields?_fieldsTokens (fun f hf => ih f hf (hinner f hf)) fuel (by omega) rest
    rw [tokens, List.cons_append, List.cons_append, List.append_assoc, List.singleton_append,
      value?_open hname (by omega)]
    cases fields with
    | nil => exact absurd rfl hne
    | cons f fields =>
      obtain ⟨key, t⟩ := f
      simp only [fieldsTokens, fieldTokens, List.cons_append, List.append_assoc] at hfields ⊢
      simp [inside?, hfields]

/-- The text of a written tree is parsed to the tree. -/
theorem parse?_render {t : Tree} (h : Written t) (hdepth : t.depth ≤ maxDepth) :
    parse? (Layout.ron.render 0 t ++ "\n") = some ({}, t) := by
  have hvalue : value? {} (3 * (tokens t).length + 3) maxDepth (tokens t) = some (t, []) := by
    simpa using h.parsed hdepth (3 * (tokens t).length + 3) [] (by omega) (by simp [Follows])
  have hplain : Extensions.ofTokens? (tokens t) = some ({}, tokens t) := by
    cases h <;> simp [tokens, Extensions.ofTokens?, Extensions.attributesWithin?]
  simp [parse?, Layout.read?_render h, hplain, hvalue]

end ClassCompiler.Tree
