import ClassCompiler.Assembly.Render
import ClassCompiler.Proofs.Alignment
import ClassCompiler.Proofs.Escapes
import ClassCompiler.Proofs.FirstDeclarations

/-!
# Records of the data segment

An object in the data segment is a few words, and for a string its characters. One of the words is
the size of the object, computed from the value or the declarations. An assembler reads the lines,
takes the characters out of their quotes, and lays everything out in memory. The two agree.

Results:
1. `data?_stringRecord`, `data?_templateLines`: what an assembler reads in a record.
2. `behind_words`, `behind_stringData`: the memory that it takes.
3. `records_faithful`: the strings are those of the program, and the sizes are the memory taken.
-/

namespace ClassCompiler.Assembly

/-! ## The assembler -/

/-- What an assembler reads in a line of a record. -/
inductive Datum where
  | label (name : String)
  | word (operand : String)
  | text (value : String)
  | align (power : Nat)
deriving DecidableEq

/-- The text of an operand in quotes. -/
def quoted? (operand : String) : Option String :=
  match operand.toList with
  | '"' :: cs =>
    if cs.getLast? = some '"' then (Quoted.decode cs.dropLast).map String.ofList else none
  | _ => none

/-- The number that an operand writes. -/
def number? (operand : String) : Option Nat :=
  operand.toList.foldlM (fun n c =>
    if c.isDigit then some (10 * n + (c.toNat - '0'.toNat)) else none) 0

def Line.datum? : Line → Option Datum
  | .label name => some (.label name)
  | .directive name operand =>
    if name = ".word" then some (.word operand)
    else if name = ".asciiz" then (quoted? operand).map .text
    else if name = ".align" then (number? operand).map .align
    else none
  | _ => none

/-- The data of the lines, if all of them are data. -/
def data? (lines : List Line) : Option (List Datum) := lines.mapM Line.datum?

/-- The address behind a datum. A word starts at a multiple of four, a text ends in a NUL. -/
def Datum.behind (address : Nat) : Datum → Nat
  | .label _ => address
  | .word _ => roundUp 4 address + 4
  | .text value => address + value.utf8ByteSize + 1
  | .align power => roundUp (2 ^ power) address

/-- The address behind some data that start at an address. -/
def behind (start : Nat) (data : List Datum) : Nat := data.foldl Datum.behind start

theorem quoted?_encode (value : String) :
    quoted? ("\"" ++ Quoted.encode value ++ "\"") = some value := by
  have hoperand : ("\"" ++ Quoted.encode value ++ "\"").toList =
      '"' :: ((Quoted.encode value).toList ++ ['"']) := by
    rw [String.toList_append, String.toList_append]
    rfl
  rw [quoted?, hoperand]
  simp [Quoted.decode_encode]

theorem data?_append {lines lines' : List Line} {data data' : List Datum}
    (h : data? lines = some data) (h' : data? lines' = some data') :
    data? (lines ++ lines') = some (data ++ data') := by
  rw [data?] at h h'
  simp [data?, List.mapM_append, h, h']

theorem data?_words (operands : List String) :
    data? (operands.map Line.word) = some (operands.map .word) := by
  induction operands with
  | nil => rfl
  | cons operand operands ih =>
    have hword : data? [Line.word operand] = some [.word operand] := by
      simp [data?, Line.word, Line.datum?]
    exact data?_append hword ih

theorem data?_label (name : String) : data? [.label name] = some [.label name] := rfl

theorem behind_append (start : Nat) (data data' : List Datum) :
    behind start (data ++ data') = behind (behind start data) data' := List.foldl_append

theorem behind_words {start : Nat} (h : 4 ∣ start) (operands : List String) :
    behind start (operands.map .word) = start + 4 * operands.length := by
  induction operands generalizing start with
  | nil => rfl
  | cons operand operands ih =>
    have hword : (Datum.word operand).behind start = start + 4 := by
      rw [Datum.behind, roundUp_of_dvd (by decide) h]
    have hnext : 4 ∣ start + 4 := (Nat.dvd_add_right h).mpr (Nat.dvd_refl 4)
    calc behind start ((operand :: operands).map .word)
        = behind (start + 4) (operands.map .word) := by rw [← hword]; rfl
      _ = start + 4 * (operands.length + 1) := by rw [ih hnext]; omega

/-! ## Strings -/

/-- The data of a string object. -/
def stringData (label value : String) (size length : Nat) : List Datum :=
  [Datum.label label]
    ++ [toString 1, toString size, Label.dispatchTable stringName, toString length].map Datum.word
    ++ [Datum.text value, Datum.align 2]

theorem data?_stringRecord (label value : String) :
    data? (stringRecord label value) = some (stringData label value
      (roundUp 4 (4 * 4 + value.utf8ByteSize + 1) % UInt64.size) (value.length % UInt64.size)) := by
  have hsize : (stringObjectSize value.utf8ByteSize.toUInt64).toNat =
      roundUp 4 (4 * 4 + value.utf8ByteSize + 1) % UInt64.size := by
    rw [toNat_stringObjectSize, Nat.add_right_comm]
  have hlength : value.length.toUInt64.toNat = value.length % UInt64.size := UInt64.toNat_ofNat'
  have htail : data? [.directive ".asciiz" ("\"" ++ Quoted.encode value ++ "\""),
      .directive ".align" "2"] = some [.text value, .align 2] := by
    have halign : number? "2" = some 2 := rfl
    simp [data?, Line.datum?, quoted?_encode, halign]
  have hwords := data?_words [toString stringId.toNat,
    toString (stringObjectSize value.utf8ByteSize.toUInt64).toNat, Label.dispatchTable stringName,
    toString value.length.toUInt64.toNat]
  -- the size is computed from the value, the text is read through its escapes
  have hdata := data?_append (data?_append (data?_label label) hwords) htail
  rw [← hsize, ← hlength]
  exact hdata

theorem behind_stringData {start : Nat} (h : 4 ∣ start) (label value : String)
    (size length : Nat) :
    behind start (stringData label value size length) =
      start + roundUp 4 (4 * 4 + value.utf8ByteSize + 1) := by
  have hwords := behind_words h
    [toString 1, toString size, Label.dispatchTable stringName, toString length]
  calc behind start (stringData label value size length)
      = behind (start + 4 * 4) [.text value, .align 2] := by
        rw [stringData, behind_append]
        exact congrArg (behind · _) hwords
    _ = roundUp 4 (start + (4 * 4 + value.utf8ByteSize + 1)) := by
        rw [← Nat.add_assoc, ← Nat.add_assoc]
        rfl
    _ = start + roundUp 4 (4 * 4 + value.utf8ByteSize + 1) := roundUp_add (by decide) h _

/-- A character takes a byte at least. -/
theorem length_le_utf8ByteSize (value : String) : value.length ≤ value.utf8ByteSize := by
  induction value using String.push_induction with
  | empty => exact Nat.le_refl 0
  | push value c ih =>
    have hpos := c.utf8Size_pos
    rw [String.length_push, String.utf8ByteSize_push]
    omega

/-! ## Templates -/

/-- The words of a template. -/
def templateWords (ids : ClassIds) (e : ClassEntry) (size : Nat) : List String :=
  [toString ((ids.id? e.name).getD 0), toString size, Label.dispatchTable e.name]
    ++ List.replicate (e.members.countP Member.isField) (toString 0)

theorem length_templateWords (ids : ClassIds) (e : ClassEntry) (size : Nat) :
    (templateWords ids e size).length = 3 + e.members.countP Member.isField := by
  rw [templateWords, List.length_append, List.length_replicate]
  rfl

theorem data?_templateLines (ids : ClassIds) {e : ClassEntry}
    (he : e.declaredFieldCount = e.members.countP Member.isField) :
    ∃ size, size = 4 * (templateWords ids e size).length % UInt64.size ∧
      data? (templateLines ids e) =
        some (.label (Label.template e.name) :: (templateWords ids e size).map .word) := by
  refine ⟨(instanceSize e.declaredFieldCount.toUInt64).toNat, ?_, ?_⟩
  · rw [length_templateWords, Nat.mul_add, ← he]
    exact toNat_instanceSize e.declaredFieldCount
  · have hlines : templateLines ids e = [Line.label (Label.template e.name)] ++
        (templateWords ids e (instanceSize e.declaredFieldCount.toUInt64).toNat).map Line.word := by
      rw [templateLines, templateWords, List.map_append, List.map_replicate, ← he]
      rfl
    rw [hlines]
    exact data?_append (data?_label _) (data?_words _)

theorem declaredFieldCount_of_mem {classes : List ClassDecl} {e : ClassEntry}
    (he : e ∈ (Members.bind classes (Hierarchy.build classes).1).1.entries) :
    e.declaredFieldCount = e.members.countP Member.isField := by
  obtain ⟨fresh, hfresh, rfl⟩ := Members.mem_bind.mp he
  obtain ⟨hbare, c, hdecl, -⟩ := Hierarchy.exists_decl_of_mem hfresh
  exact (Members.keepsFirsts_bindEntry hbare hdecl).1.declaredFieldCount_eq

/-- The records of the data segment say what they hold. For any text, what is written between the
quotes has no control character, only quotes that are escaped, and reads back as the text; no two
texts are written alike. An assembler reads in the record of a string its size, its length in
characters, and its text. From any word on, the record takes four words, the bytes of the text, the
NUL and the padding, and that is the size. In the template of a class, for any table that is built
and bound once, it reads the header and a zero for each field of the class, and the size is that of
all these words. Sizes wrap around only where a machine word cannot hold them. -/
theorem records_faithful :
    (∀ value : String,
      (∀ c ∈ (Quoted.encode value).toList, Quoted.isControl c = false) ∧
      Quoted.Enclosed (Quoted.encode value).toList ∧
      Quoted.decode (Quoted.encode value).toList = some value.toList) ∧
    Function.Injective Quoted.encode ∧
    (∀ label value : String, ∃ size length,
      data? (stringRecord label value) = some (stringData label value size length) ∧
      ∀ start, 4 ∣ start →
        let occupied := behind start (stringData label value size length) - start
        occupied = roundUp 4 (4 * 4 + value.utf8ByteSize + 1) ∧
        size = occupied % UInt64.size ∧ length = value.length % UInt64.size ∧
        (occupied < UInt64.size → size = occupied ∧ length = value.length)) ∧
    (∀ (classes : List ClassDecl) (ids : ClassIds),
      ∀ e ∈ (Members.bind classes (Hierarchy.build classes).1).1.entries, ∃ size,
        let words := templateWords ids e size
        data? (templateLines ids e) = some (.label (Label.template e.name) :: words.map .word) ∧
        words.length = 3 + e.members.countP Member.isField ∧
        size = 4 * words.length % UInt64.size ∧
        (4 * words.length < UInt64.size → size = 4 * words.length) ∧
        ∀ start, 4 ∣ start → behind start (words.map .word) = start + 4 * words.length) := by
  refine ⟨fun value => ⟨fun c hc => Quoted.isControl_of_mem_encode hc,
    Quoted.enclosed_encode value, Quoted.decode_encode value⟩, Quoted.encode_injective, ?_, ?_⟩
  · intro label value
    refine ⟨_, _, data?_stringRecord label value, fun start hstart => ?_⟩
    rw [behind_stringData hstart, Nat.add_sub_cancel_left]
    refine ⟨rfl, rfl, rfl, fun hfits => ⟨Nat.mod_eq_of_lt hfits, Nat.mod_eq_of_lt ?_⟩⟩
    have hbytes := length_le_utf8ByteSize value
    have hround := le_roundUp (by decide : 0 < 4) (4 * 4 + value.utf8ByteSize + 1)
    omega
  · intro classes ids e he
    obtain ⟨size, hsize, hdata⟩ := data?_templateLines ids (declaredFieldCount_of_mem he)
    exact ⟨size, hdata, length_templateWords ids e size, hsize,
      fun hfits => hsize.trans (Nat.mod_eq_of_lt hfits), fun start hstart => behind_words hstart _⟩

/-- A class with two fields, one of them declared again, and a method of the same name. -/
def crates : List ClassDecl :=
  [{ name := "Crate"
     features := [
       .field { name := "lid", typeName := "boolean" },
       .field { name := "label", typeName := "String" },
       .method { name := "label", returnName := "String" },
       .field { name := "lid", typeName := "int" }] }]

/-- A string with a digit behind a control character, a quote behind a backslash, and a character of
two bytes; and the template of a class that declares three fields and has two. -/
theorem records_faithful_crates :
    let value := "\x017\\\"é\n!"
    let bound := (Members.bind crates (Hierarchy.build crates).1).1
    (Quoted.encode value = "\\0017\\\\\\\"é\\n!" ∧
      Quoted.decode (Quoted.encode value).toList = some value.toList) ∧
    (∃ size length, data? (stringRecord "string_const_0" value) =
        some (stringData "string_const_0" value size length) ∧ size = 28 ∧ length = 7) ∧
    ∃ e ∈ bound.entries, ∃ words,
      data? (templateLines ⟨["Object", "Crate"]⟩ e) =
        some (.label "Crate_template" :: words.map .word) ∧
      words = ["1", "20", "Crate_dispatch_table", "0", "0"] := by
  intro value bound
  obtain ⟨htexts, -, hstrings, htemplates⟩ := records_faithful
  refine ⟨⟨by decide, (htexts value).2.2⟩, ?_, ?_⟩
  · obtain ⟨size, length, hdata, hsizes⟩ := hstrings "string_const_0" value
    obtain ⟨hoccupied, -, -, hexact⟩ := hsizes 4 (by decide)
    have hbytes : roundUp 4 (4 * 4 + value.utf8ByteSize + 1) = 28 := by decide
    obtain ⟨hsize, hlength⟩ := hexact (by rw [hoccupied, hbytes]; decide)
    exact ⟨size, length, hdata, by rw [hsize, hoccupied, hbytes], hlength.trans (by decide)⟩
  · obtain ⟨e, he⟩ : ∃ e, bound.find? "Crate" = some e := ⟨_, rfl⟩
    have hentry : (bound.find? "Crate").map (fun e => (e.name, e.members.countP Member.isField)) =
        some ("Crate", 2) := by decide
    rw [he, Option.map_some, Option.some.injEq, Prod.mk.injEq] at hentry
    obtain ⟨hname, hfields⟩ := hentry
    obtain ⟨size, hdata, hcount, -, hexact, -⟩ :=
      htemplates crates ⟨["Object", "Crate"]⟩ e (ClassTable.mem_of_find? he)
    rw [hfields] at hcount
    have hsize := hexact (by rw [hcount]; decide)
    rw [hcount] at hsize
    refine ⟨e, ClassTable.mem_of_find? he, _, hname ▸ hdata, ?_⟩
    rw [templateWords, hname, hfields, hsize]
    rfl

end ClassCompiler.Assembly
