import ClassCompiler.Proofs.QuotedText
import ClassCompiler.Tree.Parse

/-!
# Tokens of written trees

The text of a tree in the layout that can be read back is made of the tokens of the tree, one after
the other. A name or a number is over where a character follows that cannot go on with it, and an
opening parenthesis stands alone only if none that closes follows at once. So a text is taken apart
from its end: each lemma puts one token in front of characters whose tokens are known.

Results:
1. `Lexed.read?`: characters are read as the tokens that they are made of.
2. `Lexed.name`, `Lexed.number`, `Lexed.text`, `Lexed.punctuation`, `Lexed.openParen`: one more token in
   front.
3. `Layout.read?_render`: a written tree is read as its tokens.
-/

namespace ClassCompiler.Tree

/-! ## Tokens -/

/-- Some characters and the tokens that they are made of. -/
inductive Lexed : List Char → List Token → Prop where
  | nil : Lexed [] []
  | blank {c : Char} {cs : List Char} {ts : List Token} (hc : Token.isSpace c = true)
      (h : Lexed cs ts) : Lexed (c :: cs) ts
  | token {c : Char} {cs rest : List Char} {t : Token} {ts : List Token}
      (hspace : Token.isSpace c = false) (hslash : c ≠ '/')
      (hfirst : Token.first? c cs = some (t, rest)) (hlength : rest.length ≤ cs.length)
      (h : Lexed rest ts) : Lexed (c :: cs) (t :: ts)

namespace Lexed

theorem readWithin {cs : List Char} {ts : List Token} (h : Lexed cs ts) {fuel : Nat}
    (hfuel : cs.length < fuel) (read : List Token) :
    Token.readWithin fuel read cs = some (read.reverse ++ ts) := by
  induction h generalizing fuel read with
  | nil =>
    obtain ⟨fuel, rfl⟩ := Nat.exists_eq_add_one_of_ne_zero (Nat.ne_zero_of_lt hfuel)
    simp [Token.readWithin]
  | blank hc h ih =>
    obtain ⟨fuel, rfl⟩ := Nat.exists_eq_add_one_of_ne_zero (Nat.ne_zero_of_lt hfuel)
    simp only [Token.readWithin, hc, if_true]
    exact ih (Nat.lt_of_succ_lt_succ hfuel) read
  | @token c cs rest t ts hspace hslash hfirst hlength h ih =>
    obtain ⟨fuel, rfl⟩ := Nat.exists_eq_add_one_of_ne_zero (Nat.ne_zero_of_lt hfuel)
    simp only [Token.readWithin, hspace, Bool.false_eq_true, if_false, hslash, hfirst]
    rw [ih (Nat.lt_of_le_of_lt hlength (Nat.lt_of_succ_lt_succ hfuel))]
    simp

theorem read? {s : String} {ts : List Token} (h : Lexed s.toList ts) : Token.read? s = some ts :=
  h.readWithin (Nat.lt_succ_self _) []

theorem blanks {cs rest : List Char} {ts : List Token} (hcs : ∀ c ∈ cs, Token.isSpace c = true)
    (h : Lexed rest ts) : Lexed (cs ++ rest) ts := by
  induction cs with
  | nil => exact h
  | cons c cs ih =>
    exact .blank (hcs c List.mem_cons_self) (ih fun d hd => hcs d (List.mem_cons_of_mem c hd))

end Lexed

/-- What follows a name or a number does not go on with it, and does not make it a raw text. -/
def Ends (rest : List Char) : Prop :=
  ∀ c ∈ rest.head?, Token.isRawPart c = false ∧ c ≠ '"' ∧ c ≠ '#'

theorem takeWhile_append_of_head {p : Char → Bool} {cs rest : List Char} (hcs : ∀ c ∈ cs, p c = true)
    (hrest : ∀ c ∈ rest.head?, p c = false) :
    (cs ++ rest).takeWhile p = cs ∧ (cs ++ rest).dropWhile p = rest := by
  have hnil : rest.takeWhile p = [] ∧ rest.dropWhile p = rest := by
    cases rest with
    | nil => exact ⟨rfl, rfl⟩
    | cons c rest =>
      have hc := hrest c rfl
      simp [hc]
  rw [List.takeWhile_append_of_pos hcs, List.dropWhile_append_of_pos hcs, hnil.1, hnil.2,
    List.append_nil]
  exact ⟨rfl, rfl⟩

namespace Token

theorem isRawPart_spec {c : Char} (h : isRawPart c = true) :
    punctuation? c = none ∧ c ≠ '"' ∧ c ≠ '\'' ∧ c ≠ '/' ∧ isSpace c = false := by
  have ne (d : Char) (hd : isRawPart d = false) : c ≠ d := by
    rintro rfl
    simp [h] at hd
  refine ⟨?_, ne _ rfl, ne _ rfl, ne _ rfl, ?_⟩
  · simp [punctuation?, ne '(' rfl, ne ')' rfl, ne '[' rfl, ne ']' rfl, ne Quoted.openBrace rfl,
      ne Quoted.closeBrace rfl, ne ':' rfl, ne ',' rfl, ne '#' rfl, ne '!' rfl]
  · simp [isSpace, ne ' ' rfl, ne '\t' rfl, ne '\n' rfl, ne '\r' rfl]

theorem isRawPart_of_isNamePart {c : Char} (h : isNamePart c = true) : isRawPart c = true := by
  simp [isRawPart, h]

theorem isNamePart_of_isNameStart {c : Char} (h : isNameStart c = true) : isNamePart c = true := by
  rw [isNameStart, Bool.or_eq_true] at h
  rw [isNamePart, Char.isAlphanum, Bool.or_eq_true, Bool.or_eq_true]
  exact h.imp_left Or.inl

theorem isNamePart_eq_false {c : Char} (h : isRawPart c = false) : isNamePart c = false := by
  by_contra hc
  simp [isRawPart, hc] at h

/-- Whether a text is a plain name. -/
def isName (name : String) : Bool :=
  match name.toList with
  | [] => false
  | c :: cs => isNameStart c && cs.all isNamePart

/-- What a raw text or a raw name goes on with does not stand here. -/
theorem head?_ne_raw {cs : List Char} (h : ∀ c ∈ cs.head?, c ≠ '"' ∧ c ≠ '#') :
    (cs.head? == some '"' || cs.head? == some '#') = false := by
  cases cs with
  | nil => rfl
  | cons c cs => simp [(h c rfl).1, (h c rfl).2]

theorem first?_name {c : Char} {cs rest : List Char} (hc : isNameStart c = true)
    (hcs : ∀ d ∈ cs, isNamePart d = true) (hrest : Ends rest) :
    first? c (cs ++ rest) = some (name false (String.ofList (c :: cs)), rest) := by
  obtain ⟨hpunctuation, hquote, happostrophe, -, -⟩ :=
    isRawPart_spec (isRawPart_of_isNamePart (isNamePart_of_isNameStart hc))
  -- If the name starts with the letter of raw texts, it goes on with a part of a name.
  have hraw : ((cs ++ rest).head? == some '"' || (cs ++ rest).head? == some '#') = false := by
    refine head?_ne_raw fun d hd => ?_
    cases cs with
    | nil => exact (hrest d hd).2
    | cons e cs =>
      cases hd
      have he := hcs d List.mem_cons_self
      constructor <;> rintro rfl <;> exact absurd he (by decide)
  have hwhole : ∀ d ∈ c :: cs, isNamePart d = true :=
    List.forall_mem_cons.mpr ⟨isNamePart_of_isNameStart hc, hcs⟩
  obtain ⟨htake, hdrop⟩ := takeWhile_append_of_head hwhole
    fun d hd => isNamePart_eq_false (hrest d hd).1
  have hnumber : rest.head?.any isRawPart = false := by
    cases rest with
    | nil => rfl
    | cons d rest => exact (hrest d rfl).1
  have hsome := head?_ne_raw fun d hd => (hrest d hd).2
  rw [List.cons_append] at htake hdrop
  simp only [first?, hpunctuation, hquote, happostrophe, hraw, hc, htake, hdrop, ofName?, hnumber,
    hsome, Bool.and_false, Bool.false_eq_true, if_false, if_true]

theorem isRawPart_digitChar {d : Nat} (hd : d < 10) :
    isRawPart d.digitChar = true ∧ isNameStart d.digitChar = false := by
  revert d
  decide

theorem isRawPart_of_mem_number {sign : Option Sign} {n : Nat} :
    ∀ c ∈ (Layout.signText sign).toList ++ Nat.toDigits 10 n,
      isRawPart c = true ∧ isNameStart c = false := by
  intro c hc
  rcases List.mem_append.mp hc with hc | hc
  · match sign with
    | none => simp [Layout.signText] at hc
    | some .plus =>
      rw [show c = '+' by simpa [Layout.signText] using hc]
      decide
    | some .minus =>
      rw [show c = '-' by simpa [Layout.signText] using hc]
      decide
  · obtain ⟨ds, hds, hlt, -⟩ := @exists_digits 10 (by decide) n
    rw [hds] at hc
    obtain ⟨d, hd, rfl⟩ := List.mem_map.mp hc
    exact isRawPart_digitChar (hlt d hd)

theorem first?_number {sign : Option Sign} {n : Nat} (h : Number.fits sign n = true)
    {c : Char} {cs rest : List Char}
    (hcs : c :: cs = (Layout.signText sign).toList ++ Nat.toDigits 10 n) (hrest : Ends rest) :
    first? c (cs ++ rest) = some (number sign n, rest) := by
  have hparts : ∀ d ∈ c :: cs, isRawPart d = true ∧ isNameStart d = false :=
    hcs ▸ isRawPart_of_mem_number
  obtain ⟨hraw, hstart⟩ := hparts c List.mem_cons_self
  obtain ⟨hpunctuation, hquote, happostrophe, -, -⟩ := isRawPart_spec hraw
  have hletter : c ≠ 'r' := by
    rintro rfl
    exact absurd hstart (by decide)
  obtain ⟨htake, hdrop⟩ := takeWhile_append_of_head (fun d hd => (hparts d hd).1)
    fun d hd => (hrest d hd).1
  rw [List.cons_append] at htake hdrop
  simp [first?, hpunctuation, hquote, happostrophe, hletter, hstart, hraw, htake, hdrop, ofNumber?, hcs,
    Number.integer?_signText h]

end Token

namespace Lexed

open Token (isName)

variable {rest : List Char} {ts : List Token}

theorem name {name : String} (hname : isName name = true) (hrest : Ends rest) (h : Lexed rest ts) :
    Lexed (name.toList ++ rest) (.name false name :: ts) := by
  rw [isName] at hname
  split at hname
  next => cases hname
  next c cs hcs =>
    rw [Bool.and_eq_true, List.all_eq_true] at hname
    obtain ⟨-, -, -, hslash, hspace⟩ := Token.isRawPart_spec
      (Token.isRawPart_of_isNamePart (Token.isNamePart_of_isNameStart hname.1))
    have hfirst := Token.first?_name hname.1 hname.2 hrest
    rw [← hcs, String.ofList_toList] at hfirst
    rw [hcs]
    exact .token hspace hslash hfirst (by simp) h

theorem number {sign : Option Sign} {n : Nat} (hn : Number.fits sign n = true) (hrest : Ends rest)
    (h : Lexed rest ts) :
    Lexed ((Layout.signText sign ++ toString n).toList ++ rest) (.number sign n :: ts) := by
  rw [String.toList_append, Nat.toString_eq_ofList_toDigits, String.toList_ofList]
  cases hcs : (Layout.signText sign).toList ++ Nat.toDigits 10 n with
  | nil => exact absurd (List.append_eq_nil_iff.mp hcs).2 Nat.toDigits_ne_nil
  | cons c cs =>
    obtain ⟨-, -, -, hslash, hspace⟩ := Token.isRawPart_spec
      (Token.isRawPart_of_mem_number c (hcs ▸ List.mem_cons_self)).1
    exact .token hspace hslash (Token.first?_number hn hcs.symm hrest) (by simp) h

theorem text (s : String) (h : Lexed rest ts) :
    Lexed ((Quoted.encode true s).toList ++ rest) (.text s :: ts) := by
  have hfirst : Token.first? '"' (s.toList.flatMap (Quoted.encodeChar true) ++ '"' :: rest)
      = some (.text s, rest) := by
    simp [Token.first?, Token.punctuation?, Quoted.decode_encode, Quoted.openBrace, Quoted.closeBrace]
  have hwritten : (Quoted.encode true s).toList ++ rest
      = '"' :: (s.toList.flatMap (Quoted.encodeChar true) ++ '"' :: rest) := by
    simp [Quoted.encode]
  rw [hwritten]
  exact .token rfl (by decide) hfirst (by simp; omega) h

theorem punctuation {c : Char} {t : Token} (hc : Token.punctuation? c = some t)
    (ht : t ≠ .openParen) (h : Lexed rest ts) : Lexed (c :: rest) (t :: ts) := by
  have hfirst : Token.first? c rest = some (t, rest) := by simp [Token.first?, hc, ht]
  refine .token ?_ ?_ hfirst (Nat.le_refl _) h
  · by_contra hspace
    simp only [Token.isSpace, Bool.not_eq_false, Bool.or_eq_true, beq_iff_eq] at hspace
    rcases hspace with ((rfl | rfl) | rfl) | rfl <;> cases hc
  · rintro rfl
    cases hc

/-- Parentheses that open and close at once would be one token. -/
theorem openParen (hts : ts.head? ≠ some .closeParen) (h : Lexed rest ts) :
    Lexed ('(' :: rest) (.openParen :: ts) := by
  have hhead : rest.head? ≠ some ')' := by
    intro hhead
    cases h with
    | nil => cases hhead
    | blank hc h =>
      cases hhead
      cases hc
    | token hspace hslash hfirst hlength h =>
      cases hhead
      cases hfirst
      exact hts rfl
  exact .token rfl (by decide) (by simp [Token.first?, Token.punctuation?, hhead]) (Nat.le_refl _) h

end Lexed

/-! ## Layout -/

/-- Whether a text is the name of a case or a record: a name that stands for nothing else. -/
def isCaseName (name : String) : Bool :=
  Token.isName name && (special? name).isNone && (afterSome? name).isNone && name != "Some"

/-- The trees that programs are dumped as. A record has a field, and a tuple is a case with a value. -/
inductive Written : Tree → Prop where
  | number {sign : Option Sign} {n : Nat} (h : Number.fits sign n = true) : Written (.number sign n)
  | text (s : String) : Written (.text s)
  | flag (b : Bool) : Written (.flag b)
  | absent : Written .absent
  | present {t : Tree} (h : Written t) : Written (.present t)
  | word {name : String} (h : isCaseName name = true) : Written (.word name)
  | list {items : List Tree} (h : ∀ t ∈ items, Written t) : Written (.list items)
  | case {name : String} {t : Tree} (hname : isCaseName name = true) (h : Written t) :
    Written (.tuple (some name) [t])
  | record {name : String} {fields : List (String × Tree)} (hname : isCaseName name = true)
      (hne : fields ≠ []) (hkeys : ∀ f ∈ fields, Token.isName f.1 = true)
      (h : ∀ f ∈ fields, Written f.2) : Written (.record (some name) fields)

mutual

/-- The tokens of a tree that a program is dumped as. -/
def tokens : Tree → List Token
  | .number sign n => [.number sign n]
  | .text s => [.text s]
  | .flag b => [.name false (if b then "true" else "false")]
  | .absent => [.name false "None"]
  | .present t => .name false "Some" :: .openParen :: (tokens t ++ [.closeParen])
  | .word name => [.name false name]
  | .list items => .openBracket :: (itemsTokens items ++ [.closeBracket])
  | .tuple (some name) [t] => .name false name :: .openParen :: (tokens t ++ [.closeParen])
  | .record (some name) fields =>
    .name false name :: .openParen :: (fieldsTokens fields ++ [.closeParen])
  | _ => []

def itemsTokens : List Tree → List Token
  | [] => []
  | t :: ts => tokens t ++ .comma :: itemsTokens ts

def fieldsTokens : List (String × Tree) → List Token
  | [] => []
  | f :: fs => fieldTokens f ++ .comma :: fieldsTokens fs

def fieldTokens : String × Tree → List Token
  | (key, t) => .name false key :: .colon :: tokens t

end

/-- The first token of a value does not close anything. -/
theorem Written.head?_tokens {t : Tree} (h : Written t) (ts : List Token) :
    (tokens t ++ ts).head? ≠ some .closeParen ∧ (tokens t ++ ts).head? ≠ some .closeBracket := by
  cases h <;> simp [tokens]

theorem isName_of_isCaseName {name : String} (h : isCaseName name = true) :
    Token.isName name = true := by
  simp only [isCaseName, Bool.and_eq_true] at h
  exact h.1.1.1

namespace Layout

theorem isSpace_of_mem_blanks {indent : Nat} : ∀ c ∈ (blanks indent).toList, Token.isSpace c = true := by
  intro c hc
  rw [blanks, String.toList_ofList] at hc
  rw [List.eq_of_mem_replicate hc]
  rfl

theorem ends_punctuation {c : Char} {t : Token} {rest : List Char} (h : Token.punctuation? c = some t)
    (hc : c ≠ '#') : Ends (c :: rest) := by
  intro d hd
  cases hd
  refine ⟨?_, ?_, hc⟩
  · by_contra hraw
    rw [Bool.not_eq_false] at hraw
    simp [(Token.isRawPart_spec hraw).1] at h
  · rintro rfl
    cases h

theorem lexed_lines {items : List Tree} {indent : Nat} {rest : List Char} {ts : List Token}
    (hitem : ∀ t ∈ items, ∀ {rest : List Char} {ts : List Token}, Ends rest → Lexed rest ts →
      Lexed ((ron.render indent t).toList ++ rest) (tokens t ++ ts))
    (h : Lexed rest ts) :
    Lexed ((ron.renderLines indent items).toList ++ rest) (itemsTokens items ++ ts) := by
  induction items with
  | nil => simpa [renderLines, itemsTokens] using h
  | cons t items ih =>
    have hrest := ih fun t ht => hitem t (List.mem_cons_of_mem _ ht)
    have hcomma := Lexed.punctuation (c := ',') rfl (by decide) (.blank (c := '\n') rfl hrest)
    have hvalue := hitem t List.mem_cons_self (ends_punctuation rfl (by decide)) hcomma
    simpa [renderLines, itemsTokens] using Lexed.blanks isSpace_of_mem_blanks hvalue

theorem lexed_fields {fields : List (String × Tree)} {indent : Nat} {rest : List Char}
    {ts : List Token} (hkeys : ∀ f ∈ fields, Token.isName f.1 = true)
    (hfield : ∀ f ∈ fields, ∀ {rest : List Char} {ts : List Token}, Ends rest → Lexed rest ts →
      Lexed ((ron.render indent f.2).toList ++ rest) (tokens f.2 ++ ts))
    (h : Lexed rest ts) :
    Lexed ((ron.renderFields indent fields).toList ++ rest) (fieldsTokens fields ++ ts) := by
  induction fields with
  | nil => simpa [renderFields, fieldsTokens] using h
  | cons f fields ih =>
    obtain ⟨key, t⟩ := f
    have hrest := ih (fun f hf => hkeys f (List.mem_cons_of_mem _ hf))
      fun f hf => hfield f (List.mem_cons_of_mem _ hf)
    have hcomma := Lexed.punctuation (c := ',') rfl (by decide) (.blank (c := '\n') rfl hrest)
    have hvalue := hfield (key, t) List.mem_cons_self (ends_punctuation rfl (by decide)) hcomma
    have hcolon := Lexed.punctuation (c := ':') rfl (by decide) (.blank (c := ' ') rfl hvalue)
    have hkey := Lexed.name (hkeys (key, t) List.mem_cons_self) (ends_punctuation rfl (by decide)) hcolon
    simpa [renderFields, renderField, fieldsTokens, fieldTokens] using
      Lexed.blanks isSpace_of_mem_blanks hkey

/-- A name and an opening parenthesis in front of something that does not close it at once. -/
theorem lexed_open {name : String} {rest : List Char} {ts : List Token}
    (hname : Token.isName name = true) (hts : ts.head? ≠ some .closeParen) (h : Lexed rest ts) :
    Lexed (name.toList ++ '(' :: rest) (.name false name :: .openParen :: ts) :=
  .name hname (ends_punctuation rfl (by decide)) (.openParen hts h)

/-- A written tree is made of its tokens. -/
theorem lexed_render {t : Tree} (ht : Written t) (indent : Nat) {rest : List Char} {ts : List Token}
    (hrest : Ends rest) (h : Lexed rest ts) :
    Lexed ((ron.render indent t).toList ++ rest) (tokens t ++ ts) := by
  induction ht generalizing indent rest ts with
  | number hn => simpa [render, tokens] using Lexed.number hn hrest h
  | text s => simpa [render, tokens, ron] using Lexed.text s h
  | flag b =>
    cases b with
    | false =>
      simpa [render, tokens] using Lexed.name (show Token.isName "false" = true from rfl) hrest h
    | true =>
      simpa [render, tokens] using Lexed.name (show Token.isName "true" = true from rfl) hrest h
  | absent =>
    simpa [render, tokens] using Lexed.name (show Token.isName "None" = true from rfl) hrest h
  | present ht ih =>
    have hclose : Lexed (')' :: rest) (.closeParen :: ts) := .punctuation rfl (by decide) h
    have hvalue := ih indent (ends_punctuation rfl (by decide)) hclose
    simpa [render, tokens, ron] using
      lexed_open (show Token.isName "Some" = true from rfl) (ht.head?_tokens _).1 hvalue
  | word hname => simpa [render, tokens] using Lexed.name (isName_of_isCaseName hname) hrest h
  | @list items ht ih =>
    have hclose : Lexed (']' :: rest) (.closeBracket :: ts) := .punctuation rfl (by decide) h
    by_cases hempty : items = []
    · subst hempty
      have hopen : Lexed ('[' :: ']' :: rest) (.openBracket :: .closeBracket :: ts) :=
        .punctuation rfl (by decide) hclose
      simpa [render, tokens, itemsTokens] using hopen
    · have hblanks : Lexed ((blanks indent).toList ++ ']' :: rest) (.closeBracket :: ts) :=
        .blanks isSpace_of_mem_blanks hclose
      have hlines := lexed_lines (fun t ht _ _ => ih t ht (indent + 1)) hblanks
      have hopen := Lexed.punctuation (c := '[') rfl (by decide) (.blank (c := '\n') rfl hlines)
      simpa [render, tokens, hempty] using hopen
  | case hname ht ih =>
    have hclose : Lexed (')' :: rest) (.closeParen :: ts) := .punctuation rfl (by decide) h
    have hvalue := ih indent (ends_punctuation rfl (by decide)) hclose
    simpa [render, renderInline, tokens, ron] using
      lexed_open (isName_of_isCaseName hname) (ht.head?_tokens _).1 hvalue
  | @record name fields hname hne hkeys ht ih =>
    have hclose : Lexed (')' :: rest) (.closeParen :: ts) := .punctuation rfl (by decide) h
    have hblanks : Lexed ((blanks indent).toList ++ ')' :: rest) (.closeParen :: ts) :=
      .blanks isSpace_of_mem_blanks hclose
    have hfields := lexed_fields hkeys (fun f hf _ _ => ih f hf (indent + 1)) hblanks
    have hhead : (fieldsTokens fields ++ .closeParen :: ts).head? ≠ some .closeParen := by
      cases fields with
      | nil => exact absurd rfl hne
      | cons f fields =>
        obtain ⟨key, t⟩ := f
        simp [fieldsTokens, fieldTokens]
    simpa [render, tokens, ron] using
      lexed_open (isName_of_isCaseName hname) hhead (.blank (c := '\n') rfl hfields)

/-- The tokens of a written tree are read off its text. -/
theorem read?_render {t : Tree} (ht : Written t) :
    Token.read? (ron.render 0 t ++ "\n") = some (tokens t) := by
  have hend : Lexed ['\n'] [] := .blank rfl .nil
  have hends : Ends ['\n'] := by
    intro c hc
    cases hc
    decide
  refine Lexed.read? ?_
  simpa using lexed_render ht 0 hends hend

end Layout

end ClassCompiler.Tree
